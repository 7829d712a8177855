import RostamBench.Lib.Shell
import RostamBench.Lib.SortedLines
import RostamBench.Lib.Watched
import RostamBench.Netkv.Listeners

/-!
`netvec/vecsweep.sh`, the sweep over the two commit postures.

For each posture the script brings up a cluster of three servers, goes through its
gates, seeds the collection and measures its rows, and takes the cluster down. The
script is a program over the commands it runs, and a `Watch` follows what it sees of
them: which servers it has started and not killed, and what the gates were answered since.

No row is measured before every gate has been passed, and no way out of the script leaves
a server without its kill. Whether a server runs, and whether an answer is one of the
cluster, is more than the script knows: a replication report that does not come passes its
gate like one without an under-replicated shard. The script has no traps, so a signal that
ends it is left out.
-/

namespace RostamBench.Netvec.VecSweep

open Effects Shell SortedLines
open Netkv.Listeners (local4 codePoints)

/-! ### The port gate -/

/-- `$4 ~ /^127\./ || $4 ~ /^\[::1\]/`. -/
def loopback (addr : List Char) : Bool :=
  "127.".toList.isPrefixOf addr || "[::1]".toList.isPrefixOf addr

/-- What `awk` prints of the output of `ss -ltn`. -/
def awkLines (out : List Char) : List (List Char) :=
  ((Awk.records out).filter fun line => !loopback (local4 line)).map local4

/-- `tr '\n' ' '`. -/
def trNewlines (text : List Char) : List Char := text.map fun c => if c = '\n' then ' ' else c

/-- `$(ss -ltn | awk ... | sort -u | tr '\n' ' ')`. -/
def listeners (loc : Collation (List Char)) (out : List Char) : List Char :=
  substitute (trNewlines (unlines (sortU loc (awkLines out))))

/-- Some socket listens on the address, which is not a loopback one. -/
def Shows (out addr : List Char) : Prop :=
  loopback addr = false ∧ ∃ line ∈ Awk.records out, local4 line = addr

theorem mem_awkLines {out addr : List Char} : addr ∈ awkLines out ↔ Shows out addr := by
  rw [awkLines, List.mem_map]
  constructor
  · rintro ⟨line, hline, rfl⟩
    obtain ⟨hline, hloop⟩ := List.mem_filter.mp hline
    exact ⟨by simpa using hloop, line, hline, rfl⟩
  · rintro ⟨hloop, line, hline, rfl⟩
    exact ⟨line, List.mem_filter.mpr ⟨hline, by simpa using hloop⟩, rfl⟩

theorem isBlank_of_mem_local4 {line : List Char} {c : Char} (hc : c ∈ local4 line) :
    Awk.isBlank c = false := by
  rw [local4, List.getD_eq_getElem?_getD] at hc
  cases htok : (Awk.fields line)[3]? with
  | none => simp [htok] at hc
  | some tok =>
      rw [htok, Option.getD_some] at hc
      exact isBlank_of_mem_fields (List.mem_of_getElem? htok) hc

theorem not_blank_of_mem_awkLines {out addr : List Char} (h : addr ∈ awkLines out) :
    ' ' ∉ addr ∧ '\n' ∉ addr := by
  obtain ⟨line, -, rfl⟩ := List.mem_map.mp h
  constructor
  · intro hc
    exact absurd (isBlank_of_mem_local4 hc) (by decide)
  · intro hc
    exact absurd (isBlank_of_mem_local4 hc) (by decide)

/-- On one line, each address is followed by a blank. -/
theorem trNewlines_unlines {lines : List (List Char)} (h : ∀ l ∈ lines, '\n' ∉ l) :
    trNewlines (unlines lines) = lines.flatMap fun l => l ++ [' '] := by
  rw [trNewlines, unlines, List.map_flatMap]
  refine List.flatMap_congr fun l hl => ?_
  rw [List.map_append, List.map_singleton, if_pos rfl]
  congr 1
  refine (List.map_congr_left fun c hc => ?_).trans (List.map_id l)
  rw [if_neg, id]
  rintro rfl
  exact h l hl hc

theorem splitOn_blanks {lines : List (List Char)} (h : ∀ l ∈ lines, ' ' ∉ l) :
    (lines.flatMap fun l => l ++ [' ']).splitOn ' ' = lines ++ [[]] := by
  induction lines with
  | nil => rfl
  | cons l lines ih =>
      obtain ⟨hl, hlines⟩ := List.forall_mem_cons.mp h
      have hone : ([' '].intercalate [l]).splitOn ' ' = [l] :=
        List.splitOn_intercalate ' ' (by simpa using hl) (by simp)
      rw [List.intercalate_singleton] at hone
      rw [List.flatMap_cons, List.append_assoc, List.singleton_append,
        List.splitOn_append_cons_self, hone, ih hlines]
      rfl

/-- The gate compares the sets of addresses that are not on the loopback interface. -/
theorem listeners_eq_iff (loc : Collation (List Char)) (out out' : List Char) :
    listeners loc out = listeners loc out' ↔ ∀ addr, Shows out addr ↔ Shows out' addr := by
  have hblank (out : List Char) : ∀ l ∈ sortU loc (awkLines out), ' ' ∉ l ∧ '\n' ∉ l :=
    fun l hl => not_blank_of_mem_awkLines ((mem_sortU loc).mp hl)
  have htext (out : List Char) :
      listeners loc out = (sortU loc (awkLines out)).flatMap fun l => l ++ [' '] := by
    rw [listeners, trNewlines_unlines fun l hl => (hblank out l hl).2]
    apply substitute_of_getLast?
    rcases List.eq_nil_or_concat' (sortU loc (awkLines out)) with hnil | ⟨ls, l, hls⟩
    · rw [hnil]
      simp
    · rw [hls, List.flatMap_append, List.flatMap_singleton, ← List.append_assoc,
        List.getLast?_concat]
      decide
  rw [htext, htext]
  constructor
  · intro heq addr
    have hlines := congrArg (List.splitOn ' ') heq
    rw [splitOn_blanks fun l hl => (hblank out l hl).1,
      splitOn_blanks fun l hl => (hblank out' l hl).1] at hlines
    rw [← mem_awkLines, ← mem_awkLines]
    exact (sortU_eq_iff loc _ _).mp (List.append_cancel_right hlines) addr
  · intro h
    have hsame : ∀ addr, addr ∈ awkLines out ↔ addr ∈ awkLines out' := by
      intro addr
      rw [mem_awkLines, mem_awkLines, h]
    rw [(sortU_eq_iff loc _ _).mpr hsame]

/-! ### The script -/

inductive Posture
  | commitAll
  | commitMaster
  deriving DecidableEq, Repr

inductive Cmd
  /-- `ss -ltn`, for the baseline and the gate. -/
  | ss
  /-- The list at the end, which only goes to the terminal. -/
  | list
  /-- `rm -rf "$DATA"; mkdir -p "$DATA"`. -/
  | wipe
  /-- Server number `i` in the background; `-pb-commit-primary` is the posture's. -/
  | server (posture : Posture) (i : ℕ)
  | sleep (seconds : ℕ)
  /-- The create of `__ready__`. -/
  | createReady
  /-- The delete of `__ready__`. -/
  | deleteReady
  /-- `/v1/replication`. -/
  | replication
  /-- `kill -9`. -/
  | kill (pid : ℕ)
  /-- The run of `netvec` with `-drop=true -setup=true`. -/
  | seed (posture : Posture)
  /-- A run with `-setup=false`. -/
  | row (posture : Posture) (rep : ℕ) (conns : String)

/-- What the script looks at of a command; `server` is answered by `$!`. -/
abbrev Cmd.Reply : Cmd → Type
  | .ss | .createReady | .replication => List Char
  | .server _ _ => ℕ
  | .list | .wipe | .sleep _ | .deleteReady | .kill _ | .seed _ | .row _ _ _ => Unit

/-- A part of the script; an error is an exit with that status. -/
abbrev Part (α : Type) := Prog Cmd.Reply (Except ℕ α)

def run (c : Cmd) : Part c.Reply := .op c fun a => .ret (.ok a)

def done {α : Type} (a : α) : Part α := .ret (.ok a)

def exit {α : Type} (status : ℕ) : Part α := .ret (.error status)

structure Settings where
  /-- The words of `$CONNS`. -/
  conns : List String
  reps : ℕ
  locale : Collation (List Char)

/-- `for p in $(cat "$ROOT/pids"); do kill -9 "$p"; done`. -/
def killAll (pids : List ℕ) : Part Unit := Prog.forEach (fun _ p => run (.kill p)) pids ()

def portGate (cfg : Settings) (baseline : List Char) (pids : List ℕ) : Part Unit :=
  (run .ss).andThen fun out =>
    if listeners cfg.locale out ≠ baseline then (killAll pids).andThen fun _ => exit 1
    else done ()

/-- `case "$out" in *'"name"'*|*'already exists'*)`. -/
def accepts (out : List Char) : Bool :=
  decide ("\"name\"".toList <:+: out) || decide ("already exists".toList <:+: out)

/-- `case "$rep" in *'"under_replicated":true'*)`. -/
def underReplicated (rep : List Char) : Bool :=
  decide ("\"under_replicated\":true".toList <:+: rep)

/-- The servers, with their pids as `$ROOT/pids` has them. -/
def startServers (posture : Posture) : Part (List ℕ) :=
  Prog.forEach
    (fun pids i => (run (.server posture i)).andThen fun pid => done (pids ++ [pid])) [1, 2, 3] []

/-- The readiness loop, with this many rounds to go; the result is `ready`. -/
def awaitReady : ℕ → Part Bool
  | 0 => done false
  | n + 1 =>
      (run (.sleep 2)).andThen fun _ =>
        (run .createReady).andThen fun out =>
          if accepts (substitute out) then done true else awaitReady n

/-- The gates of `up`; the result says whether it returns 0. -/
def gates (cfg : Settings) (baseline : List Char) (pids : List ℕ) : Part Bool :=
  (awaitReady 60).andThen fun ready =>
    (run .deleteReady).andThen fun _ =>
      if ready then
        (run .replication).andThen fun rep =>
          if underReplicated (substitute rep) then done false
          else (portGate cfg baseline pids).andThen fun _ => done true
      else done false

/-- `up`, with the pids it leaves. -/
def up (cfg : Settings) (baseline : List Char) (posture : Posture) : Part (List ℕ × Bool) :=
  (run .wipe).andThen fun _ =>
    (startServers posture).andThen fun pids =>
      (gates cfg baseline pids).andThen fun ok => done (pids, ok)

def down (pids : List ℕ) : Part Unit := (killAll pids).andThen fun _ => run (.sleep 4)

/-- The seed and the rows of a posture. -/
def measure (cfg : Settings) (posture : Posture) : Part Unit :=
  (run (.seed posture)).andThen fun _ =>
    Prog.forEach
      (fun _ rep => Prog.forEach (fun _ c => run (.row posture rep c)) cfg.conns ())
      (List.range' 1 cfg.reps) ()

/-- The body of the loop over the postures. -/
def sweepPosture (cfg : Settings) (baseline : List Char) (posture : Posture) : Part (List ℕ) :=
  (up cfg baseline posture).andThen fun (pids, ok) =>
    if ok then
      (measure cfg posture).andThen fun _ =>
        (portGate cfg baseline pids).andThen fun _ => (down pids).andThen fun _ => done pids
    else (down pids).andThen fun _ => done pids

/-- The script; `$ROOT/pids` is not read before it is written. -/
def script (cfg : Settings) : Part Unit :=
  (run .ss).andThen fun out =>
    (Prog.forEach (fun _ posture => sweepPosture cfg (listeners cfg.locale out) posture)
      [.commitAll, .commitMaster] []).andThen fun pids =>
        (portGate cfg (listeners cfg.locale out) pids).andThen fun _ => run .list

/-! ### What a run has seen -/

structure Watch where
  /-- The first snapshot of the listeners. -/
  baseline : Option (List Char)
  /-- The pids of the servers that were started, without those a `kill -9` went to. -/
  unkilled : List ℕ
  /-- The servers that were started since the data was wiped. -/
  started : List (Posture × ℕ)
  /-- The last answer to the create of `__ready__` since. -/
  created : Option (List Char)
  /-- The last answer of `/v1/replication` since. -/
  report : Option (List Char)
  /-- The last snapshot of the listeners since. -/
  snapshot : Option (List Char)
  /-- The seed runs since. -/
  seeds : List Posture
  /-- Every snapshot shows what the baseline shows. -/
  quiet : Prop

def Watch.start : Watch where
  baseline := none
  unkilled := []
  started := []
  created := none
  report := none
  snapshot := none
  seeds := []
  quiet := True

/-- The two snapshots show the same addresses. -/
def Same (base out : List Char) : Prop := ∀ addr, Shows out addr ↔ Shows base addr

def Watch.sees (w : Watch) (out : List Char) : Watch :=
  match w.baseline with
  | none => { w with baseline := some out }
  | some base => { w with snapshot := some out, quiet := w.quiet ∧ Same base out }

/-- Nothing is known of the cluster that is to come. -/
def Watch.wiped (w : Watch) : Watch :=
  { w with started := [], created := none, report := none, snapshot := none, seeds := [] }

def Watch.step (w : Watch) : Event Cmd.Reply → Watch
  | ⟨.ss, out⟩ => w.sees out
  | ⟨.wipe, _⟩ => w.wiped
  | ⟨.server posture i, pid⟩ =>
      { w with unkilled := w.unkilled ++ [pid], started := w.started ++ [(posture, i)] }
  | ⟨.createReady, out⟩ => { w with created := some out }
  | ⟨.replication, rep⟩ => { w with report := some rep }
  | ⟨.kill pid, _⟩ => { w with unkilled := w.unkilled.filter (· ≠ pid) }
  | ⟨.seed posture, _⟩ => { w with seeds := w.seeds ++ [posture] }
  | ⟨.list, _⟩ | ⟨.sleep _, _⟩ | ⟨.deleteReady, _⟩ | ⟨.row _ _ _, _⟩ => w

/-- What the gates have let pass: the answer to the create has a name in it or says that
the collection exists, that of `/v1/replication` does not have the text of an
under-replicated shard, and the listeners are those of the baseline. -/
structure Watch.Gated (w : Watch) : Prop where
  created : ∃ out ∈ w.created, accepts (substitute out) = true
  report : ∃ rep ∈ w.report, underReplicated (substitute rep) = false
  snapshot : ∃ base ∈ w.baseline, ∃ out ∈ w.snapshot, Same base out

/-- Since the data was wiped the three servers of the posture were started and no others,
none of them was killed, and the gates were passed. -/
structure Watch.Passed (w : Watch) (posture : Posture) : Prop where
  started : w.started = [(posture, 1), (posture, 2), (posture, 3)]
  unkilled : w.unkilled.length = 3
  gated : w.Gated

/-- Data is only wiped when every server was killed. A posture is seeded once and measured
then, after the gates. -/
def Watch.Allows (w : Watch) : Event Cmd.Reply → Prop
  | ⟨.wipe, _⟩ => w.unkilled = []
  | ⟨.seed posture, _⟩ => w.Passed posture ∧ w.seeds = []
  | ⟨.row posture _ _, _⟩ => w.Passed posture ∧ w.seeds = [posture]
  | _ => True

def watch : Monitor Cmd.Reply Watch where
  step := Watch.step
  ok := Watch.Allows

/-- An exit is that of the gate, which has killed every server. -/
def Tripped (w : Watch) (status : ℕ) : Prop := status = 1 ∧ w.unkilled = [] ∧ ¬ w.quiet

/-- A part that is allowed to run, and ends in `Q` unless the gate trips. -/
def Runs {α : Type} (p : Part α) (w : Watch) (Q : Watch → α → Prop) : Prop :=
  p.Guarded watch (Either Q Tripped) w

variable {α β : Type} {w : Watch} {cfg : Settings} {base : List Char}

theorem runs_run {c : Cmd} {Q : Watch → c.Reply → Prop}
    (h : ∀ a : c.Reply, w.Allows ⟨c, a⟩ ∧ Q (w.step ⟨c, a⟩) a) : Runs (run c) w Q :=
  h

theorem runs_andThen {p : Part α} {f : α → Part β} {Q : Watch → α → Prop} {Q' : Watch → β → Prop}
    (hp : Runs p w Q) (hf : ∀ w a, Q w a → Runs (f a) w Q') : Runs (p.andThen f) w Q' :=
  Prog.Guarded.andThen hp hf

theorem runs_forEach {f : β → α → Part β} {I : Watch → β → Prop} {as : List α}
    (hf : ∀ w b, ∀ a ∈ as, I w b → Runs (f b a) w I) {b : β} (h : I w b) :
    Runs (Prog.forEach f as b) w I :=
  Prog.Guarded.forEach hf h

/-! ### The parts -/

/-- The snapshots so far, and the servers: those of the pids file at most. -/
structure Watch.Keeps (base : List Char) (pids : List ℕ) (w : Watch) : Prop where
  baseline : w.baseline = some base
  quiet : w.quiet
  unkilled : ∀ p ∈ w.unkilled, p ∈ pids

theorem Watch.Keeps.unkilled_eq_nil (h : w.Keeps base []) : w.unkilled = [] := by
  apply List.eq_nil_iff_forall_not_mem.mpr
  intro p hp
  simpa using h.unkilled p hp

theorem runs_killAll (pids : List ℕ) (w : Watch) :
    Runs (killAll pids) w fun w' _ => w' = { w with unkilled := w.unkilled.filter (· ∉ pids) } := by
  induction pids generalizing w with
  | nil =>
      show w = _
      simp
  | cons p pids ih =>
      apply runs_andThen (Q := fun w' _ => w' = { w with unkilled := w.unkilled.filter (· ≠ p) })
      · apply runs_run
        intro a
        exact ⟨trivial, rfl⟩
      · rintro w' _ rfl
        refine (ih _).mono ?_
        rintro w' (status | _) h
        · exact h
        · obtain rfl : w' = _ := h
          show _ = _
          simp [List.filter_filter, Bool.and_comm]

theorem filter_pids_eq_nil {pids' pids : List ℕ} (h : ∀ p ∈ pids', p ∈ pids) :
    pids'.filter (· ∉ pids) = [] := by
  apply List.filter_eq_nil_iff.mpr
  intro p hp
  simpa using h p hp

/-- A gate that lets the script go on has seen what the baseline shows. -/
theorem runs_portGate {pids : List ℕ} (h : w.Keeps base pids) :
    Runs (portGate cfg (listeners cfg.locale base) pids) w fun w' _ =>
      ∃ out, Same base out ∧
        w' = { w with snapshot := some out, quiet := w.quiet ∧ Same base out } := by
  apply runs_andThen (Q := fun w' out =>
    w' = { w with snapshot := some out, quiet := w.quiet ∧ Same base out })
  · apply runs_run
    intro out
    refine ⟨trivial, ?_⟩
    show w.sees out = _
    rw [Watch.sees, h.baseline]
  · rintro w' out rfl
    have hgate := listeners_eq_iff cfg.locale out base
    by_cases hsame : Same base out
    · rw [if_neg (by simpa using hgate.mpr hsame)]
      exact ⟨out, hsame, rfl⟩
    -- the pids file has every server that was not killed yet
    · rw [if_pos fun heq => hsame (hgate.mp heq)]
      apply runs_andThen (runs_killAll pids _)
      rintro w' _ rfl
      exact ⟨rfl, filter_pids_eq_nil h.unkilled, fun hquiet => hsame hquiet.2⟩

theorem runs_startServers (posture : Posture) (w : Watch) :
    Runs (startServers posture) w fun w' pids => pids.length = 3 ∧
      w' = { w with
        unkilled := w.unkilled ++ pids
        started := w.started ++ [(posture, 1), (posture, 2), (posture, 3)] } := by
  have hstep (i : ℕ) (pids : List ℕ) (w : Watch) :
      Runs ((run (.server posture i)).andThen fun pid : ℕ => done (pids ++ [pid])) w fun w' pids' =>
        ∃ pid, pids' = pids ++ [pid] ∧
          w' = { w with unkilled := w.unkilled ++ [pid], started := w.started ++ [(posture, i)] } :=
    runs_andThen (runs_run (Q := fun w' (pid : ℕ) =>
      w' = { w with unkilled := w.unkilled ++ [pid], started := w.started ++ [(posture, i)] })
        fun pid => ⟨trivial, rfl⟩) fun w' pid hw' => ⟨pid, rfl, hw'⟩
  apply runs_andThen (hstep 1 [] w)
  rintro w' pids ⟨pid₁, rfl, rfl⟩
  apply runs_andThen (hstep 2 _ _)
  rintro w' pids ⟨pid₂, rfl, rfl⟩
  apply runs_andThen (hstep 3 _ _)
  rintro w' pids ⟨pid₃, rfl, rfl⟩
  exact ⟨rfl, by simp⟩

theorem runs_awaitReady (n : ℕ) (w : Watch) :
    Runs (awaitReady n) w fun w' ready => ∃ created,
      (ready = true → ∃ out ∈ created, accepts (substitute out) = true) ∧
        w' = { w with created := created } := by
  induction n generalizing w with
  | zero => exact ⟨w.created, by simp, rfl⟩
  | succ n ih =>
      apply runs_andThen (Q := fun w' _ => w' = w)
      · exact runs_run fun _ => ⟨trivial, rfl⟩
      · rintro w' _ rfl
        apply runs_andThen (Q := fun w'' out => w'' = { w' with created := some out })
        · exact runs_run fun _ => ⟨trivial, rfl⟩
        · rintro w'' out rfl
          split
          · rename_i haccepts
            exact ⟨some out, fun _ => ⟨out, rfl, haccepts⟩, rfl⟩
          · exact ih _

theorem runs_gates {pids : List ℕ} (h : w.Keeps base pids) :
    Runs (gates cfg (listeners cfg.locale base) pids) w fun w' ok => w'.Keeps base pids ∧
      w'.started = w.started ∧ w'.unkilled = w.unkilled ∧ w'.seeds = w.seeds ∧
      (ok = true → w'.Gated) := by
  apply runs_andThen (runs_awaitReady 60 w)
  rintro _ ready ⟨created, hcreated, rfl⟩
  apply runs_andThen (Q := fun w' _ => w' = { w with created := created })
  · exact runs_run fun _ => ⟨trivial, rfl⟩
  · rintro _ _ rfl
    cases ready with
    | false => exact ⟨⟨h.baseline, h.quiet, h.unkilled⟩, rfl, rfl, rfl, by simp⟩
    | true =>
        apply runs_andThen (Q := fun w' rep => w' = { w with
          created := created, report := some rep })
        · exact runs_run fun _ => ⟨trivial, rfl⟩
        · rintro _ rep rfl
          split
          · exact ⟨⟨h.baseline, h.quiet, h.unkilled⟩, rfl, rfl, rfl, by simp⟩
          · rename_i hunder
            refine runs_andThen (runs_portGate ?_) ?_
            · exact ⟨h.baseline, h.quiet, h.unkilled⟩
            rintro _ _ ⟨out, hsame, rfl⟩
            refine ⟨⟨h.baseline, ⟨h.quiet, hsame⟩, h.unkilled⟩, rfl, rfl, rfl, fun _ => ?_⟩
            exact ⟨hcreated rfl, ⟨rep, rfl, by simpa using hunder⟩, base, h.baseline, out, rfl,
              hsame⟩

theorem runs_up (h : w.Keeps base []) (posture : Posture) :
    Runs (up cfg (listeners cfg.locale base) posture) w fun w' res => w'.Keeps base res.1 ∧
      (res.2 = true → w'.Passed posture ∧ w'.seeds = []) := by
  have hnone := h.unkilled_eq_nil
  apply runs_andThen (Q := fun w' _ => w' = w.wiped)
  · exact runs_run fun _ => ⟨hnone, rfl⟩
  · rintro _ _ rfl
    apply runs_andThen (runs_startServers posture _)
    rintro _ pids ⟨hlen, rfl⟩
    refine runs_andThen (runs_gates ?_) ?_
    · exact ⟨h.baseline, h.quiet, by simp [Watch.wiped, hnone]⟩
    rintro w' ok ⟨hkeeps, hstarted, hunkilled, hseeds, hok⟩
    exact ⟨hkeeps, fun htrue =>
      ⟨⟨hstarted, by simp [hunkilled, Watch.wiped, hnone, hlen], hok htrue⟩, hseeds⟩⟩

theorem runs_down (base : List Char) {pids : List ℕ} (h : w.Keeps base pids) :
    Runs (down pids) w fun w' _ => w'.Keeps base [] := by
  apply runs_andThen (runs_killAll pids w)
  rintro _ _ rfl
  apply runs_run
  intro _
  refine ⟨trivial, h.baseline, h.quiet, ?_⟩
  show ∀ p ∈ w.unkilled.filter (· ∉ pids), p ∈ []
  rw [filter_pids_eq_nil h.unkilled]
  simp

/-- The rows change nothing the watch looks at. -/
theorem runs_measure {pids : List ℕ} (h : w.Keeps base pids) {posture : Posture}
    (hpassed : w.Passed posture) (hseeds : w.seeds = []) :
    Runs (measure cfg posture) w fun w' _ => w'.Keeps base pids := by
  apply runs_andThen (Q := fun w' _ =>
    w'.Keeps base pids ∧ w'.Passed posture ∧ w'.seeds = [posture])
  · apply runs_run
    intro _
    refine ⟨⟨hpassed, hseeds⟩, ⟨h.baseline, h.quiet, h.unkilled⟩, ?_, ?_⟩
    · obtain ⟨hstarted, hunkilled, hgated⟩ := hpassed
      exact ⟨hstarted, hunkilled, hgated.created, hgated.report, hgated.snapshot⟩
    · show w.seeds ++ [posture] = [posture]
      rw [hseeds, List.nil_append]
  · rintro w _ hw
    have hrow (w : Watch) (rep : ℕ) (c : String)
        (hw : w.Keeps base pids ∧ w.Passed posture ∧ w.seeds = [posture]) :
        Runs (run (.row posture rep c)) w fun w' _ =>
          w'.Keeps base pids ∧ w'.Passed posture ∧ w'.seeds = [posture] :=
      runs_run fun _ => ⟨hw.2, hw⟩
    refine (runs_forEach (I := fun w' _ =>
      w'.Keeps base pids ∧ w'.Passed posture ∧ w'.seeds = [posture]) ?_ hw).mono ?_
    · intro w _ rep _ hw
      exact runs_forEach (fun w _ c _ hw => hrow w rep c hw) hw
    · rintro w' (status | _) hw'
      · exact hw'
      · exact hw'.1

theorem runs_sweepPosture (h : w.Keeps base []) (posture : Posture) :
    Runs (sweepPosture cfg (listeners cfg.locale base) posture) w fun w' _ =>
      w'.Keeps base [] := by
  apply runs_andThen (runs_up h posture)
  rintro w ⟨pids, ok⟩ ⟨hkeeps, hok⟩
  cases ok with
  -- the posture is skipped, but not its servers
  | false =>
      apply runs_andThen (runs_down base hkeeps)
      intro w' _ hw'
      exact hw'
  | true =>
      obtain ⟨hpassed, hseeds⟩ := hok rfl
      apply runs_andThen (runs_measure hkeeps hpassed hseeds)
      intro w' _ hw'
      apply runs_andThen (runs_portGate hw')
      rintro _ _ ⟨out, hsame, rfl⟩
      refine runs_andThen (runs_down base ?_) ?_
      · exact ⟨hw'.baseline, ⟨hw'.quiet, hsame⟩, hw'.unkilled⟩
      · intro w'' _ hw''
        exact hw''

/-! ### The whole script -/

theorem runs_script (cfg : Settings) :
    Runs (script cfg) .start fun w' _ => w'.unkilled = [] ∧ w'.quiet := by
  apply runs_andThen (Q := fun w' out => w'.Keeps out [])
  · apply runs_run
    intro out
    exact ⟨trivial, rfl, trivial, by simp [Watch.step, Watch.sees, Watch.start]⟩
  · intro w base hkeeps
    -- between two postures every server has been killed
    apply runs_andThen (Q := fun w' _ => w'.Keeps base [])
    · exact runs_forEach (fun w _ posture _ hw => runs_sweepPosture hw posture) hkeeps
    · intro w pids hw
      have hnone := hw.unkilled_eq_nil
      refine runs_andThen (runs_portGate ?_) ?_
      · exact ⟨hw.baseline, hw.quiet, by simp [hnone]⟩
      rintro _ _ ⟨out, hsame, rfl⟩
      exact runs_run fun _ => ⟨trivial, hnone, hw.quiet, hsame⟩

/-- Every command succeeds, and the listeners never change. -/
def steadyAct : Act Unit Cmd.Reply
  | .ss, _ => ((), [])
  | .createReady, _ => ((), "\x7b\"name\":\"__ready__\"\x7d".toList)
  | .replication, _ => ((), "[\x7b\"shard\":0,\"under_replicated\":false\x7d]".toList)
  | .server _ i, _ => ((), i)
  | .list, _ | .wipe, _ | .sleep _, _ | .deleteReady, _ | .kill _, _ | .seed _, _
  | .row _ _ _, _ => ((), ())

def oneRow : Settings where
  conns := ["8"]
  reps := 1
  locale := codePoints.toCollation

theorem run_portGate_steady (pids : List ℕ) :
    (portGate oneRow (listeners oneRow.locale []) pids).run steadyAct () = ((), .ok ()) := by
  rw [portGate, Prog.run_andThen_ok (a := []) rfl, if_neg (not_not_intro rfl)]
  rfl

theorem run_up_steady (posture : Posture) :
    (up oneRow (listeners oneRow.locale []) posture).run steadyAct () =
      ((), .ok ([1, 2, 3], true)) := by
  have hready : (awaitReady 60).run steadyAct () = ((), .ok true) := by decide +kernel
  have hgates : (gates oneRow (listeners oneRow.locale []) [1, 2, 3]).run steadyAct () =
      ((), .ok true) := by
    rw [gates, Prog.run_andThen_ok hready, Prog.run_andThen_ok (a := ()) rfl, if_pos rfl,
      Prog.run_andThen_ok rfl, if_neg (by decide +kernel),
      Prog.run_andThen_ok (run_portGate_steady _)]
    rfl
  rw [up, Prog.run_andThen_ok (a := ()) rfl, Prog.run_andThen_ok (a := [1, 2, 3]) rfl,
    Prog.run_andThen_ok hgates]
  rfl

theorem run_sweepPosture_steady (posture : Posture) :
    (sweepPosture oneRow (listeners oneRow.locale []) posture).run steadyAct () =
      ((), .ok [1, 2, 3]) := by
  rw [sweepPosture, Prog.run_andThen_ok (run_up_steady posture)]
  dsimp only
  rw [if_pos rfl, Prog.run_andThen_ok (a := ()) rfl,
    Prog.run_andThen_ok (run_portGate_steady _)]
  rfl

theorem run_loop_steady :
    (Prog.forEach (fun _ posture =>
      sweepPosture oneRow (listeners oneRow.locale []) posture)
      [.commitAll, .commitMaster] []).run steadyAct () = ((), .ok [1, 2, 3]) := by
  rw [Prog.forEach, Prog.run_andThen_ok (run_sweepPosture_steady _), Prog.forEach,
    Prog.run_andThen_ok (run_sweepPosture_steady _)]
  rfl

theorem run_script_steady : (script oneRow).run steadyAct () = ((), .ok ()) := by
  rw [script, Prog.run_andThen_ok (a := []) rfl, Prog.run_andThen_ok (run_loop_steady),
    Prog.run_andThen_ok (run_portGate_steady _)]
  rfl

theorem row_mem_events_steady :
    (⟨.row .commitAll 1 "8", ()⟩ : Event Cmd.Reply) ∈
      (script oneRow).events steadyAct () := by
  have hmeasure : (measure oneRow .commitAll).events steadyAct () =
      [⟨.seed .commitAll, ()⟩, ⟨.row .commitAll 1 "8", ()⟩] := rfl
  rw [script, Prog.events_andThen_ok (a := []) rfl,
    Prog.events_andThen_ok (run_loop_steady), Prog.forEach,
    Prog.events_andThen_ok (run_sweepPosture_steady .commitAll), sweepPosture,
    Prog.events_andThen_ok (run_up_steady .commitAll)]
  dsimp only
  rw [if_pos rfl, Prog.events_andThen_ok (a := ()) rfl, hmeasure]
  simp

/-- In every run of the script, whatever its commands answer: the data is wiped when every
server it has started has had its `kill -9`, and a row is measured after one seed run of its
posture, with the three servers of the posture started since the wipe, no other one and none
of them sent a kill, and after the gates: the last create was answered with a name in it or that the collection
exists, the answer of `/v1/replication` did not have the text of an under-replicated shard,
and the last snapshot of the listeners shows the addresses of the baseline. -/
theorem row_only_on_gated_cluster (cfg : Settings) {tr : List (Event Cmd.Reply)}
    {r : Except ℕ Unit} (hends : (script cfg).Ends tr r) :
    (∀ before posture rep c a after, tr = before ++ ⟨.row posture rep c, a⟩ :: after →
      (before.foldl Watch.step .start).Passed posture ∧
        (before.foldl Watch.step .start).seeds = [posture]) ∧
    ∀ before a after, tr = before ++ ⟨.wipe, a⟩ :: after →
      (before.foldl Watch.step .start).unkilled = [] := by
  obtain ⟨hall, -⟩ := Prog.Guarded.of_ends (runs_script cfg) hends
  constructor
  · intro before posture rep c a after heq
    exact hall before _ after heq
  · intro before a after heq
    exact hall before _ after heq

theorem row_only_on_gated_cluster_steady :
    ∃ tr before after, (script oneRow).Ends tr (.ok ()) ∧
      tr = before ++ ⟨.row .commitAll 1 "8", ()⟩ :: after ∧
      (before.foldl Watch.step .start).Passed .commitAll := by
  have hends := Prog.ends_events steadyAct (script oneRow) ()
  rw [run_script_steady] at hends
  obtain ⟨before, after, heq⟩ := List.append_of_mem (row_mem_events_steady)
  exact ⟨_, before, after, hends, heq,
    ((row_only_on_gated_cluster oneRow hends).1 before _ _ _ _ after heq).1⟩

/-- However the script ends, every server it has started has had its `kill -9`; and it ends
with an error exactly when a snapshot of the gate has shown other addresses than the
baseline. -/
theorem sweep_leaves_no_server (cfg : Settings) {tr : List (Event Cmd.Reply)}
    {r : Except ℕ Unit} (hends : (script cfg).Ends tr r) :
    (tr.foldl Watch.step .start).unkilled = [] ∧
      (r = .ok () ∨ r = .error 1) ∧ (r = .ok () ↔ (tr.foldl Watch.step .start).quiet) := by
  obtain ⟨-, hend⟩ := Prog.Guarded.of_ends (runs_script cfg) hends
  cases r with
  | ok u => exact ⟨hend.1, Or.inl rfl, fun _ => hend.2, fun _ => rfl⟩
  | error status =>
      obtain ⟨rfl, hunkilled, hquiet⟩ := hend
      exact ⟨hunkilled, Or.inr rfl, iff_of_false (by simp) hquiet⟩

theorem sweep_leaves_no_server_steady :
    ∃ tr, (script oneRow).Ends tr (.ok ()) ∧ (tr.foldl Watch.step .start).unkilled = [] ∧
      (tr.foldl Watch.step .start).quiet := by
  have hends := Prog.ends_events steadyAct (script oneRow) ()
  rw [run_script_steady] at hends
  obtain ⟨hunkilled, -, hquiet⟩ := sweep_leaves_no_server oneRow hends
  exact ⟨_, hends, hunkilled, hquiet.mp rfl⟩

end RostamBench.Netvec.VecSweep
