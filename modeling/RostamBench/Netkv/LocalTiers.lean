import RostamBench.Lib.Watched
import Mathlib.Data.List.Infix
import Mathlib.Data.List.Nodup
import Mathlib.Tactic.Linarith

/-!
`netkv/charts/local_tiers23.sh`: what replication costs, and how a cluster scales.

Every point is measured several times, and for every time the script starts a cluster of
its own: it removes the containers, waits for their ports, wipes their data, starts the
nodes of the point and waits until each of them listens. The script is a program over the
commands it runs. It never exits early: the status of a command is looked at in a few
places only, and not that of `docker run` or of `stop_all`.

A `Watch` follows the commands. What the comments of the script ask for holds of the
commands in every run (`measured_on_fresh_cluster`): no measurement without a new cluster, on
wiped data, all of whose nodes listen, at the addresses it is told.
-/

namespace RostamBench.Netkv.LocalTiers

open Effects

/-! ### Clusters -/

inductive Replication
  | pb
  | raft
  deriving DecidableEq, Repr

/-- The start function of a point, with its arguments. -/
inductive Start
  | single
  | cluster (mode : Replication) (nodes shards rf : ℕ)
  deriving DecidableEq, Repr

/-- `TCP_BASE`, `PB_BASE` and `RAFT_BASE`. -/
def tcpBase : ℕ := 17600

def pbBase : ℕ := 17700

def raftBase : ℕ := 17800

/-- `node_cpus`: the first and the last core. -/
def nodeCpus (i : ℕ) : ℕ × ℕ := (i * 4, i * 4 + 3)

/-- An entry of `-peers`; the addresses are on `127.0.0.1` and kept by their ports. -/
structure Peer where
  id : ℕ
  raft : ℕ
  tcp : ℕ
  pb : Option ℕ
  deriving DecidableEq, Repr

/-- The flags of a node in a cluster. -/
structure Member where
  bootstrap : Bool
  id : ℕ
  raft : ℕ
  shards : ℕ
  rf : ℕ
  /-- `-min-isr` and `-pb-addr`; a raft node has `-nosync -volatile-log` for them. -/
  pb : Option (ℕ × ℕ)
  peers : List Peer
  deriving DecidableEq, Repr

/-- `docker run --name rt$name`, with what differs from node to node. -/
structure Launch where
  name : ℕ
  cpus : ℕ × ℕ
  tcp : ℕ
  member : Option Member
  deriving DecidableEq, Repr

def peers (mode : Replication) (nodes : ℕ) : List Peer :=
  (List.range nodes).map fun i =>
    { id := i, raft := raftBase + i, tcp := tcpBase + i,
      pb := if mode = .pb then some (pbBase + i) else none }

/-- The node that `start_cluster` starts in round `i`. -/
def clusterNode (mode : Replication) (nodes shards rf i : ℕ) : Launch :=
  let minIsr := if rf < 2 then 1 else 2
  { name := i
    cpus := nodeCpus i
    tcp := tcpBase + i
    member := some
      { bootstrap := i == 0, id := i, raft := raftBase + i, shards := shards, rf := rf,
        pb := if mode = .pb then some (minIsr, pbBase + i) else none,
        peers := peers mode nodes } }

def Start.launches : Start → List Launch
  | .single => [{ name := 0, cpus := nodeCpus 0, tcp := tcpBase, member := none }]
  | .cluster mode nodes shards rf => (List.range nodes).map (clusterNode mode nodes shards rf)

/-- `addrs_for`. -/
def addrsFor (n : ℕ) : List ℕ := (List.range n).map (tcpBase + ·)

/-! ### Points -/

structure Point where
  tier : ℕ
  config : String
  conns : String
  start : Start
  deriving DecidableEq, Repr

/-- `case "$cfg" in *nodes-1*) n=1;; *nodes-2*) n=2;; local-single) n=1;; *) n=3;; esac`. -/
def nodesOf (config : String) : ℕ :=
  if "nodes-1".toList <:+: config.toList then 1
  else if "nodes-2".toList <:+: config.toList then 2
  else if config = "local-single" then 1
  else 3

/-- The calls of `point` in the order in which the script makes them. -/
def points (conns : List String) : List Point :=
  conns.map (fun c => ⟨2, "local-single", c, .single⟩) ++
  conns.map (fun c => ⟨2, "local-pb-rf2", c, .cluster .pb 3 8 2⟩) ++
  conns.map (fun c => ⟨2, "local-raft-rf3", c, .cluster .raft 3 8 3⟩) ++
  [4, 8, 16, 32].flatMap (fun shards => ["128", "512"].map fun c =>
    ⟨3, "local-shards-" ++ toString shards, c, .cluster .pb 3 shards 2⟩) ++
  [1, 2, 3].flatMap fun nodes => ["128", "512"].map fun c =>
    ⟨3, "local-nodes-" ++ toString nodes, c,
      .cluster .pb nodes (nodes * 8) (if nodes = 1 then 1 else 2)⟩

/-! ### The script -/

/-- What is said of a rep. -/
inductive Verdict
  | ok
  | notPublishable
  | noOutput
  | skip
  deriving DecidableEq, Repr

inductive Cmd
  /-- `docker rm -f rt$i`. -/
  | rm (i : ℕ)
  /-- `ss -ltn | grep -qE ":(1760[0-2]|1770[0-2]|1780[0-2])\b"`. -/
  | bound
  | sleep (seconds : ℕ)
  /-- The `rm -rf` of the data inside a container, and the new directories. -/
  | wipe
  /-- `find "$RUN"/n* ... | wc -l`. -/
  | left
  | start (l : Launch)
  | portOpen (port : ℕ)
  /-- `docker logs`. -/
  | logs (i : ℕ)
  /-- A run of `netkv` with `-rostam` at these ports, for a rep of a point. -/
  | netkv (p : Point) (rep : ℕ) (addrs : List ℕ)
  /-- `parse_netkv.py`, and `ops` and `errs` of the row it has written. -/
  | parse (p : Point) (rep : ℕ)
  | log (p : Point) (rep : ℕ) (v : Verdict)

/-- What the script looks at of a command; a failed `parse` has no row. -/
abbrev Cmd.Reply : Cmd → Type
  | .bound | .portOpen _ => Bool
  | .left => ℕ
  | .parse _ _ => Option (Int64 × Int64)
  | .rm _ | .sleep _ | .wipe | .start _ | .logs _ | .netkv _ _ _ | .log _ _ _ => Unit

/-- A part of the script; nothing in it exits. -/
abbrev Part (α : Type) := Prog Cmd.Reply (Except Empty α)

def run (c : Cmd) : Part c.Reply := .op c fun a => .ret (.ok a)

def done {α : Type} (a : α) : Part α := .ret (.ok a)

/-- The loop of `stop_all`, with this many rounds to go; a function's result is whether it
returns 0. -/
def awaitFree : ℕ → Part Bool
  | 0 => done false
  | n + 1 =>
      (run .bound).andThen fun bound =>
        if bound then (run (.sleep 1)).andThen fun _ => awaitFree n else done true

def stopAll : Part Bool :=
  (Prog.forEach (fun _ i => run (.rm i)) [0, 1, 2] ()).andThen fun _ => awaitFree 30

def wipe : Part Bool :=
  (run .wipe).andThen fun _ => (run .left).andThen fun left => done (left == 0)

/-- `for _ in $(seq 1 40); do port_open ... ; sleep 1; done`. -/
def awaitPort (port : ℕ) : ℕ → Part Bool
  | 0 => done false
  | n + 1 =>
      (run (.portOpen port)).andThen fun up =>
        if up then done true else (run (.sleep 1)).andThen fun _ => awaitPort port n

/-- The nodes of a cluster, one after the other. -/
def startNodes (ls : List Launch) : Part Unit := Prog.forEach (fun _ l => run (.start l)) ls ()

/-- Every node has to listen, but each is waited for; the result is `ok`. -/
def awaitNodes (nodes : ℕ) : Part Bool :=
  Prog.forEach
    (fun ok i => (awaitPort (tcpBase + i) 40).andThen fun up =>
      if up then done ok else (run (.logs i)).andThen fun _ => done false)
    (List.range nodes) true

/-- `start_single` and `start_cluster`. -/
def Start.run : Start → Part Bool
  | .single =>
      stopAll.andThen fun _ => wipe.andThen fun ok =>
        if ok then
          (startNodes Start.single.launches).andThen fun _ =>
            (awaitPort tcpBase 40).andThen fun up =>
              if up then done true else (LocalTiers.run (.logs 0)).andThen fun _ => done false
        else done false
  | .cluster mode nodes shards rf =>
      stopAll.andThen fun _ => wipe.andThen fun ok =>
        if ok then
          (startNodes (Start.cluster mode nodes shards rf).launches).andThen fun _ =>
            (awaitNodes nodes).andThen fun ok =>
              if ok then (LocalTiers.run (.sleep 12)).andThen fun _ => done true else done false
        else done false

/-- `[ "${errs:-0}" -gt 0 ] && [ "$(( errs * 100 / (ops>0?ops:1) ))" -ge 1 ]`. -/
def flagged (ops errs : Int64) : Bool :=
  decide (0 < errs) && decide (1 ≤ errs * 100 / (if 0 < ops then ops else 1))

def verdict : Option (Int64 × Int64) → Verdict
  | none => .noOutput
  | some (ops, errs) => if flagged ops errs then .notPublishable else .ok

/-- A rep of `run_point`. -/
def runRep (p : Point) (addrs : List ℕ) (rep : ℕ) : Part Unit :=
  p.start.run.andThen fun ok =>
    if ok then
      (run (.netkv p rep addrs)).andThen fun _ =>
        (run (.parse p rep)).andThen fun row => run (.log p rep (verdict row))
    else run (.log p rep .skip)

/-- `point`, with `run_point`. -/
def point (reps : ℕ) (p : Point) : Part Unit :=
  Prog.forEach (fun _ rep => runRep p (addrsFor (nodesOf p.config)) rep) (List.range' 1 reps) ()

structure Settings where
  /-- The words of `$CONNS`. -/
  conns : List String
  reps : ℕ

def script (cfg : Settings) : Part Bool :=
  (Prog.forEach (fun _ p => point cfg.reps p) (points cfg.conns) ()).andThen fun _ => stopAll

/-! ### What a run has done -/

structure Watch where
  /-- The `docker run`s, without those whose name a `docker rm -f` has had since. -/
  launched : List Launch
  /-- The last count found the data directories empty, and nothing was measured since. -/
  clean : Prop
  /-- The ports that have answered since the last start or removal of a container. -/
  listening : List ℕ
  /-- The last measurement, and its row. -/
  last : Option (Point × ℕ)
  row : Option (Int64 × Int64)

def Watch.start : Watch where
  launched := []
  clean := False
  listening := []
  last := none
  row := none

def Watch.step (w : Watch) : Event Cmd.Reply → Watch
  | ⟨.rm i, _⟩ => { w with launched := w.launched.filter (·.name ≠ i), listening := [] }
  | ⟨.left, n⟩ => { w with clean := n = 0 }
  | ⟨.start l, _⟩ => { w with launched := w.launched ++ [l], listening := [] }
  | ⟨.portOpen port, up⟩ => if up then { w with listening := port :: w.listening } else w
  | ⟨.netkv p rep _, _⟩ => { w with clean := False, last := some (p, rep), row := none }
  | ⟨.parse _ _, row⟩ => { w with row := row }
  | ⟨.bound, _⟩ | ⟨.sleep _, _⟩ | ⟨.wipe, _⟩ | ⟨.logs _, _⟩ | ⟨.log _ _ _, _⟩ => w

/-- The nodes of the start function were started, and no others, on data nobody has used,
and a connection to each of them has been taken since. -/
structure Watch.Fresh (w : Watch) (start : Start) : Prop where
  launched : w.launched = start.launches
  clean : w.clean
  listening : ∀ l ∈ w.launched, l.tcp ∈ w.listening

/-- Data is wiped when every container has been removed. A measurement goes to a fresh
cluster of its point, and what is said of it is read in its own row. -/
def Watch.Allows (ps : List Point) (w : Watch) : Event Cmd.Reply → Prop
  | ⟨.wipe, _⟩ => w.launched = []
  | ⟨.netkv p _ addrs, _⟩ => p ∈ ps ∧ w.Fresh p.start ∧ addrs = w.launched.map Launch.tcp
  | ⟨.parse p rep, _⟩ => w.last = some (p, rep)
  | ⟨.log p rep .ok, _⟩ => w.last = some (p, rep) ∧
      ∃ ops errs, w.row = some (ops, errs) ∧ flagged ops errs = false
  | _ => True

def watch (ps : List Point) : Monitor Cmd.Reply Watch where
  step := Watch.step
  ok := Watch.Allows ps

/-- A part that is allowed to run, and ends in `Q`. -/
def Runs {α : Type} (ps : List Point) (p : Part α) (w : Watch) (Q : Watch → α → Prop) : Prop :=
  p.Guarded (watch ps) (Either Q fun _ _ => False) w

variable {α β : Type} {w : Watch} {ps : List Point}

theorem runs_run {c : Cmd} {Q : Watch → c.Reply → Prop}
    (h : ∀ a : c.Reply, w.Allows ps ⟨c, a⟩ ∧ Q (w.step ⟨c, a⟩) a) : Runs ps (run c) w Q :=
  h

theorem runs_andThen {p : Part α} {f : α → Part β} {Q : Watch → α → Prop} {Q' : Watch → β → Prop}
    (hp : Runs ps p w Q) (hf : ∀ w a, Q w a → Runs ps (f a) w Q') :
    Runs ps (p.andThen f) w Q' :=
  Prog.Guarded.andThen hp hf

theorem runs_mono {p : Part α} {Q Q' : Watch → α → Prop} (hp : Runs ps p w Q)
    (h : ∀ w a, Q w a → Q' w a) : Runs ps p w Q' := by
  refine Prog.Guarded.mono hp ?_
  rintro w (e | a) hw
  · exact e.elim
  · exact h w a hw

/-- A command that changes nothing, and what comes after it. -/
theorem runs_idle {c : Cmd} {f : c.Reply → Part α} {Q : Watch → α → Prop}
    (hc : ∀ a : c.Reply, w.Allows ps ⟨c, a⟩ ∧ w.step ⟨c, a⟩ = w) (hf : ∀ a, Runs ps (f a) w Q) :
    Runs ps ((run c).andThen f) w Q := by
  apply runs_andThen (Q := fun w' _ => w' = w) (runs_run hc)
  rintro w' a rfl
  exact hf a

/-! ### Stopping -/

theorem runs_awaitFree (n : ℕ) (w : Watch) : Runs ps (awaitFree n) w fun w' _ => w' = w := by
  induction n with
  | zero => exact (rfl : w = w)
  | succ n ih =>
      refine runs_idle (fun _ => ⟨trivial, rfl⟩) fun bound => ?_
      cases bound with
      | false => exact (rfl : w = w)
      | true => exact runs_idle (fun _ => ⟨trivial, rfl⟩) fun _ => ih

/-- Only the three containers that `stop_all` removes are ever started. -/
def Named (w : Watch) : Prop := ∀ l ∈ w.launched, l.name < 3

theorem runs_stopAll (h : Named w) : Runs ps stopAll w fun w' _ => w'.launched = [] := by
  have hrm (i : ℕ) (w : Watch) : Runs ps (run (.rm i)) w fun w' _ =>
      w' = { w with launched := w.launched.filter (·.name ≠ i), listening := [] } :=
    runs_run fun _ => ⟨trivial, rfl⟩
  apply runs_andThen (Q := fun w' _ => w'.launched = [])
  · apply runs_andThen (hrm 0 w)
    rintro _ _ rfl
    apply runs_andThen (hrm 1 _)
    rintro _ _ rfl
    apply runs_andThen (hrm 2 _)
    rintro _ _ rfl
    show ((w.launched.filter _).filter _).filter _ = []
    rw [List.filter_filter, List.filter_filter, List.filter_eq_nil_iff]
    intro l hl
    have hname := h l hl
    simp only [ne_eq, decide_not, Bool.and_eq_true, Bool.not_eq_true', decide_eq_false_iff_not]
    omega
  · intro w' _ hw'
    refine runs_mono (runs_awaitFree 30 w') ?_
    rintro _ _ rfl
    exact hw'

theorem runs_wipe (h : w.launched = []) :
    Runs ps wipe w fun w' ok => w'.launched = [] ∧ (ok = true → w'.clean) := by
  refine runs_idle (fun _ => ⟨h, rfl⟩) fun _ => ?_
  apply runs_andThen (Q := fun w' left => w'.launched = [] ∧ w'.clean = (left = 0))
  · exact runs_run fun left => ⟨trivial, h, rfl⟩
  · rintro w' left ⟨hnone, hclean⟩
    refine ⟨hnone, ?_⟩
    intro hzero
    rw [hclean]
    simpa using hzero

/-! ### Starting -/

theorem runs_startNodes (ls : List Launch) (w : Watch) :
    Runs ps (startNodes ls) w fun w' _ => w'.launched = w.launched ++ ls ∧ w'.clean = w.clean := by
  induction ls generalizing w with
  | nil => exact ⟨by simp, rfl⟩
  | cons l ls ih =>
      apply runs_andThen (Q := fun w' _ => w'.launched = w.launched ++ [l] ∧ w'.clean = w.clean)
      · exact runs_run fun _ => ⟨trivial, rfl, rfl⟩
      · rintro w' _ ⟨hup, hclean⟩
        refine runs_mono (ih w') ?_
        rintro w'' _ ⟨hup', hclean'⟩
        rw [hup', hclean', hup, hclean, List.append_assoc]
        exact ⟨rfl, rfl⟩

/-- What waiting for nodes changes. -/
def Listens (w w' : Watch) (ports : List ℕ) : Prop :=
  w'.launched = w.launched ∧ w'.clean = w.clean ∧ (∀ p ∈ w.listening, p ∈ w'.listening) ∧
    ∀ p ∈ ports, p ∈ w'.listening

theorem runs_awaitPort (port n : ℕ) (w : Watch) :
    Runs ps (awaitPort port n) w fun w' up => Listens w w' (if up then [port] else []) := by
  induction n with
  | zero => exact ⟨rfl, rfl, fun _ h => h, by simp⟩
  | succ n ih =>
      apply runs_andThen (Q := fun w' up =>
        w' = if up then { w with listening := port :: w.listening } else w)
      · exact runs_run fun up => ⟨trivial, rfl⟩
      · rintro w' up rfl
        cases up with
        | true => exact ⟨rfl, rfl, fun p hp => List.mem_cons_of_mem _ hp, by simp⟩
        | false => exact runs_idle (fun _ => ⟨trivial, rfl⟩) fun _ => ih

/-- Node `i`, after the nodes of `seen`: if all were up, their ports have answered. -/
theorem runs_awaitNode {seen : List ℕ} {w₁ : Watch} {ok : Bool} (hw : Listens w w₁ [])
    (hok : ok = true → ∀ j ∈ seen, tcpBase + j ∈ w₁.listening) (i : ℕ) :
    Runs ps ((awaitPort (tcpBase + i) 40).andThen fun up =>
        if up then done ok else (run (.logs i)).andThen fun _ => done false) w₁ fun w₂ ok' =>
      Listens w w₂ [] ∧ (ok' = true → ∀ j ∈ seen ++ [i], tcpBase + j ∈ w₂.listening) := by
  apply runs_andThen (runs_awaitPort (tcpBase + i) 40 w₁)
  rintro w₂ up ⟨hlaunched, hclean, hkeep, hport⟩
  have hw₂ : Listens w w₂ [] :=
    ⟨hlaunched.trans hw.1, hclean.trans hw.2.1, fun p hp => hkeep p (hw.2.2.1 p hp), by simp⟩
  cases up with
  | true =>
      refine ⟨hw₂, fun htrue j hj => ?_⟩
      rcases List.mem_append.mp hj with hj | hj
      · exact hkeep _ (hok htrue j hj)
      · rw [List.mem_singleton.mp hj]
        exact hport _ (by simp)
  -- the other nodes are waited for all the same
  | false =>
      refine runs_idle (fun _ => ⟨trivial, rfl⟩) fun _ => ?_
      exact ⟨hw₂, by simp⟩

theorem runs_awaitNodes (nodes : ℕ) (w : Watch) :
    Runs ps (awaitNodes nodes) w fun w' ok => w'.launched = w.launched ∧ w'.clean = w.clean ∧
      (ok = true → ∀ i < nodes, tcpBase + i ∈ w'.listening) := by
  have hloop : ∀ (is seen : List ℕ) (w₁ : Watch) (ok : Bool), Listens w w₁ [] →
      (ok = true → ∀ j ∈ seen, tcpBase + j ∈ w₁.listening) →
      Runs ps (Prog.forEach (fun ok i => (awaitPort (tcpBase + i) 40).andThen fun up =>
        if up then done ok else (run (.logs i)).andThen fun _ => done false) is ok) w₁ fun w' ok =>
          w'.launched = w.launched ∧ w'.clean = w.clean ∧
            (ok = true → ∀ j ∈ seen ++ is, tcpBase + j ∈ w'.listening) := by
    intro is
    induction is with
    | nil =>
        intro seen w₁ ok hw hok
        refine ⟨hw.1, hw.2.1, ?_⟩
        rw [List.append_nil]
        exact hok
    | cons i is ih =>
        intro seen w₁ ok hw hok
        apply runs_andThen (runs_awaitNode hw hok i)
        rintro w₂ ok' ⟨hw₂, hok'⟩
        refine runs_mono (ih (seen ++ [i]) w₂ ok' hw₂ hok') ?_
        intro w' ok'' hw'
        rwa [List.append_assoc, List.singleton_append] at hw'
  refine runs_mono (hloop (List.range nodes) [] w true ⟨rfl, rfl, fun _ h => h, by simp⟩
    (by simp)) ?_
  rintro w' ok ⟨hlaunched, hclean, hok⟩
  exact ⟨hlaunched, hclean, fun htrue i hi => hok htrue i (by simpa using hi)⟩

/-! ### The points -/

/-- What is known of the point of a start function: a cluster has as many nodes as its
config is measured with. -/
inductive Measured (n : ℕ) : Start → Prop
  | single (h : n = 1) : Measured n .single
  | cluster (mode : Replication) (shards rf : ℕ) (hn : 1 ≤ n ∧ n ≤ 3) (hrf : 1 ≤ rf ∧ rf ≤ n) :
      Measured n (.cluster mode n shards rf)

theorem measured_of_mem_points {conns : List String} {p : Point} (hp : p ∈ points conns) :
    Measured (nodesOf p.config) p.start := by
  simp only [points, List.mem_append, List.mem_map, List.mem_flatMap] at hp
  rcases hp with (((⟨c, -, rfl⟩ | ⟨c, -, rfl⟩) | ⟨c, -, rfl⟩) | ⟨shards, hshards, c, -, rfl⟩) |
    ⟨nodes, hnodes, c, -, rfl⟩
  · exact .single (show nodesOf "local-single" = 1 by decide)
  · have hn : nodesOf "local-pb-rf2" = 3 := by decide
    dsimp only
    rw [hn]
    exact .cluster _ _ _ (by decide) (by decide)
  · have hn : nodesOf "local-raft-rf3" = 3 := by decide
    dsimp only
    rw [hn]
    exact .cluster _ _ _ (by decide) (by decide)
  -- no number of shards makes the name one of the other patterns
  · have hn : ∀ shards ∈ [4, 8, 16, 32], nodesOf ("local-shards-" ++ toString shards) = 3 := by
      decide
    dsimp only
    rw [hn shards hshards]
    exact .cluster _ _ _ (by decide) (by decide)
  · have hn : ∀ nodes ∈ [1, 2, 3], nodesOf ("local-nodes-" ++ toString nodes) = nodes := by
      decide
    have hrf : ∀ nodes ∈ [1, 2, 3], (1 ≤ nodes ∧ nodes ≤ 3) ∧
        1 ≤ (if nodes = 1 then 1 else 2) ∧ (if nodes = 1 then 1 else 2) ≤ nodes := by
      decide
    dsimp only
    rw [hn nodes hnodes]
    exact .cluster _ _ _ (hrf nodes hnodes).1 (hrf nodes hnodes).2

variable {n : ℕ} {start : Start}

/-- The addresses `netkv` is told are those of the nodes. -/
theorem Measured.addrsFor_eq (h : Measured n start) :
    addrsFor n = start.launches.map Launch.tcp := by
  cases h with
  | single h =>
      rw [h]
      rfl
  | cluster mode shards rf hn hrf => simp [addrsFor, Start.launches, clusterNode]

theorem Measured.named (h : Measured n start) : ∀ l ∈ start.launches, l.name < 3 := by
  cases h with
  | single h => simp [Start.launches]
  | cluster mode shards rf hn hrf =>
      simp only [Start.launches, List.mem_map, List.mem_range, forall_exists_index, and_imp]
      rintro l i hi rfl
      exact hi.trans_le hn.2

/-- The ports a node listens on. -/
def Launch.ports (l : Launch) : List ℕ :=
  l.tcp :: match l.member with
    | none => []
    | some m => m.raft :: (m.pb.map Prod.snd).toList

theorem named_of_launched_eq_nil (h : w.launched = []) : Named w := by
  simp [Named, h]

theorem Measured.named_of_launched_eq (h : Measured n start) (hup : w.launched = start.launches) :
    Named w := by
  rw [Named, hup]
  exact h.named

/-- What both start functions begin with. -/
theorem runs_launch {p : Part Bool} {ls : List Launch} {Q : Watch → Bool → Prop} (hw : Named w)
    (hfail : ∀ w : Watch, w.launched = [] → Q w false)
    (hp : ∀ w : Watch, w.launched = ls → w.clean → Runs ps p w Q) :
    Runs ps (stopAll.andThen fun _ => wipe.andThen fun ok =>
      if ok then (startNodes ls).andThen fun _ => p else done false) w Q := by
  -- the status of `stop_all` is not looked at, that of `wipe` is
  apply runs_andThen (runs_stopAll hw)
  rintro w₁ _ hup
  apply runs_andThen (runs_wipe hup)
  rintro w₂ ok ⟨hup, hclean⟩
  cases ok with
  | false => exact hfail w₂ hup
  | true =>
      apply runs_andThen (runs_startNodes ls w₂)
      rintro w₃ _ ⟨hup', hclean'⟩
      refine hp w₃ ?_ ?_
      · rw [hup', hup, List.nil_append]
      · rw [hclean']
        exact hclean rfl

theorem runs_start (h : Measured n start) (hw : Named w) :
    Runs ps start.run w fun w' ok => Named w' ∧ (ok = true → w'.Fresh start) := by
  have hfail (w' : Watch) (hnone : w'.launched = []) :
      Named w' ∧ (false = true → w'.Fresh start) :=
    ⟨named_of_launched_eq_nil hnone, by simp⟩
  have hnamed {w' : Watch} (hup : w'.launched = start.launches) : Named w' :=
    h.named_of_launched_eq hup
  cases h with
  | single hn =>
      refine runs_launch hw hfail ?_
      intro w₁ hup hclean
      apply runs_andThen (runs_awaitPort tcpBase 40 w₁)
      rintro w₂ up ⟨hlaunched, hclean', -, hport⟩
      rw [hup] at hlaunched
      cases up with
      | true =>
          refine ⟨hnamed hlaunched, fun _ => ⟨hlaunched, by rw [hclean']; exact hclean, ?_⟩⟩
          rw [hlaunched]
          simpa [Start.launches] using hport
      | false =>
          refine runs_idle (fun _ => ⟨trivial, rfl⟩) fun _ => ?_
          exact ⟨hnamed hlaunched, by simp⟩
  | cluster mode shards rf hn hrf =>
      refine runs_launch hw hfail ?_
      intro w₁ hup hclean
      apply runs_andThen (runs_awaitNodes n w₁)
      rintro w₂ ok ⟨hlaunched, hclean', hports⟩
      rw [hup] at hlaunched
      cases ok with
      | false => exact ⟨hnamed hlaunched, by simp⟩
      | true =>
          refine runs_idle (fun _ => ⟨trivial, rfl⟩) fun _ => ?_
          refine ⟨hnamed hlaunched, fun _ => ⟨hlaunched, by rw [hclean']; exact hclean, ?_⟩⟩
          intro l hl
          rw [hlaunched] at hl
          obtain ⟨i, hi, rfl⟩ := List.mem_map.mp hl
          exact hports rfl i (List.mem_range.mp hi)

theorem verdict_eq_ok {row : Option (Int64 × Int64)} (h : verdict row = .ok) :
    ∃ ops errs, row = some (ops, errs) ∧ flagged ops errs = false := by
  cases row with
  | none => cases h
  | some row =>
      refine ⟨row.1, row.2, rfl, ?_⟩
      by_contra hflagged
      rw [Bool.not_eq_false] at hflagged
      simp [verdict, hflagged] at h

theorem runs_runRep {p : Point} (hp : p ∈ ps) (h : Measured (nodesOf p.config) p.start) (rep : ℕ)
    (hw : Named w) :
    Runs ps (runRep p (addrsFor (nodesOf p.config)) rep) w fun w' _ => Named w' := by
  apply runs_andThen (runs_start h hw)
  rintro w₁ ok ⟨hnamed, hfresh⟩
  cases ok with
  | false => exact runs_run fun _ => ⟨trivial, hnamed⟩
  | true =>
      have hmeasured : w₁.Fresh p.start := hfresh rfl
      apply runs_andThen (Q := fun w' _ => Named w' ∧ w'.last = some (p, rep))
      · refine runs_run fun _ => ⟨⟨hp, hmeasured, ?_⟩, hnamed, rfl⟩
        rw [h.addrsFor_eq, hmeasured.launched]
      · rintro w₂ _ ⟨hnamed, hlast⟩
        apply runs_andThen (Q := fun w' row => Named w' ∧ w'.last = some (p, rep) ∧ w'.row = row)
        · exact runs_run fun row => ⟨hlast, hnamed, hlast, rfl⟩
        -- what is said is said of the row that was just read
        · rintro w₃ row ⟨hnamed, hlast, hrow⟩
          refine runs_run fun _ => ⟨?_, hnamed⟩
          cases hv : verdict row with
          | ok =>
              obtain ⟨ops, errs, heq, hflagged⟩ := verdict_eq_ok hv
              exact ⟨hlast, ops, errs, hrow.trans heq, hflagged⟩
          | notPublishable | noOutput | skip => exact trivial

theorem runs_script (cfg : Settings) :
    Runs (points cfg.conns) (script cfg) .start fun w' _ => w'.launched = [] := by
  apply runs_andThen (Q := fun w' _ => Named w')
  · refine Prog.Guarded.forEach (I := fun w' _ => Named w') ?_ (by simp [Named, Watch.start])
    intro w _ p hp hw
    refine Prog.Guarded.forEach (I := fun w' _ => Named w') ?_ hw
    intro w _ rep _ hw
    exact runs_runRep hp (measured_of_mem_points hp) rep hw
  · intro w _ hw
    exact runs_stopAll hw

/-- Every command does what it is for, and every row is one without errors. -/
def steadyAct : Act Unit Cmd.Reply
  | .bound, _ => ((), false)
  | .left, _ => ((), 0)
  | .portOpen _, _ => ((), true)
  | .parse _ _, _ => ((), some (3000000, 0))
  | .rm _, _ | .sleep _, _ | .wipe, _ | .start _, _ | .logs _, _ | .netkv _ _ _, _
  | .log _ _ _, _ => ((), ())

def oneConn : Settings where
  conns := ["64"]
  reps := 1

theorem run_script_steady : (script oneConn).run steadyAct () = ((), .ok true) := by
  decide +kernel

end RostamBench.Netkv.LocalTiers
