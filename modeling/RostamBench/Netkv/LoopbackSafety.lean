import RostamBench.Netkv.LoopbackRefine

/-!
What `kv_loopback.sh` never does, whatever its commands answer and whenever it is
interrupted.

A `Watch` follows the commands of a run: which engine has been started last, what has been
found of it since, and what the snapshots of the listeners have shown. Nothing is measured
but an engine that listens, whose container `docker ps` has found, and that a snapshot has
cleared since it was started (`measured_only_when_cleared`). Whatever the way out of the
script, its last command is the removal of the container; whether that succeeds nobody
looks at.
-/

namespace RostamBench.Netkv.LoopbackRun

open Effects Shell Listeners

/-- Every directive is on the loopback interface. -/
def OnLoopback (conf : List (List Char)) : Prop := ∀ line ∈ conf, binds line = false

structure Watch where
  /-- The configuration Aerospike would be started with. -/
  conf : Option (List (List Char))
  baseline : Option Snapshot
  /-- The engine of the last `docker run`, if no `docker rm -f` came after it. -/
  started : Option String
  /-- The port of that engine has taken a connection since. -/
  listens : Prop
  /-- `docker ps` has found the container since. -/
  shown : Prop
  /-- A snapshot since has shown nothing new. -/
  cleared : Prop
  /-- No snapshot has shown anything new. -/
  quiet : Prop
  /-- Nor has the one at the end. -/
  ended : Prop
  /-- The last signal that has come in. -/
  signal : Option Signal

def Watch.start : Watch where
  conf := none
  baseline := none
  started := none
  listens := False
  shown := False
  cleared := False
  quiet := True
  ended := False
  signal := none

/-- A complete snapshot without a public address that the baseline does not have. -/
def NothingNew (base snap : Snapshot) : Prop :=
  snap.Complete ∧ ∀ addr, snap.Public addr → base.Public addr

def Watch.Clears (w : Watch) (snap : Snapshot) : Prop :=
  ∃ base ∈ w.baseline, NothingNew base snap

/-- Nothing is known of the container that is to come. -/
def Watch.restarted (w : Watch) (e : Option String) : Watch :=
  { w with started := e, listens := False, shown := False, cleared := False }

def Watch.sees (w : Watch) : (c : Cmd) → c.Reply → Watch
  | .conf, conf => { w with conf := some (rewrite conf) }
  | .remove, _ => w.restarted none
  | .drun e, _ => w.restarted (some e)
  | .waitUp e, up => { w with listens := w.started = some e ∧ up = true }
  | .ps _, found => { w with shown := found = true }
  | .ss .baseline, snap => { w with baseline := some snap }
  | .ss (.started _), snap => { w with cleared := w.Clears snap, quiet := w.quiet ∧ w.Clears snap }
  | .ss .sweepEnd, snap => { w with quiet := w.quiet ∧ w.Clears snap, ended := w.Clears snap }
  | .netkv _ _, _ | .summary, _ => w

def Watch.step (w : Watch) (e : Event Answer) : Watch :=
  { w.sees e.1 e.2.1 with signal := e.2.2.or w.signal }

/-- The engine was started last, and has been found listening, running and without a new
public address since. -/
structure Watch.Up (w : Watch) (e : String) : Prop where
  started : w.started = some e
  listens : w.listens
  shown : w.shown
  cleared : w.cleared

/-- Aerospike is started with every directive on the loopback interface, and an engine is
measured when it is up. -/
def Watch.Permits (w : Watch) : Cmd → Prop
  | .drun e => e = "aerospike" → ∃ conf ∈ w.conf, OnLoopback conf
  | .netkv k _ => w.Up k.1
  | _ => True

/-- After a signal the container is removed, and nothing else is done. -/
def Watch.Allows (w : Watch) (e : Event Answer) : Prop :=
  (e.1 ≠ .remove → w.signal = none) ∧ w.Permits e.1

def watch : Monitor Answer Watch where
  step := Watch.step
  ok := Watch.Allows

/-- The status of an exit is that of the signal, or of what `init` or a check has found. -/
def Exited (w : Watch) (status : ℕ) : Prop :=
  match w.signal with
  | none => status ∈ [3, 4, 5]
  | some sig => status = sig.status

/-- A part that is allowed to run while no signal has come in, and ends in `Q` unless it
exits. -/
def Runs {α : Type} (p : Part α) (w : Watch) (Q : Watch → α → Prop) : Prop :=
  w.signal = none → p.Guarded watch (Either (fun w a => w.signal = none ∧ Q w a) Exited) w

variable {α β : Type} {w : Watch} {cfg : Settings} {base : Snapshot} {out : List Char}

theorem sees_signal (w : Watch) (c : Cmd) (a : c.Reply) : (w.sees c a).signal = w.signal := by
  cases c with
  | ss c => cases c <;> rfl
  | _ => rfl

theorem step_none {c : Cmd} (a : c.Reply) : w.step ⟨c, (a, none)⟩ = w.sees c a := by
  have hsignal : (w.sees c a).signal = Option.or none w.signal := by
    rw [sees_signal, Option.none_or]
  show { w.sees c a with signal := Option.or none w.signal } = w.sees c a
  rw [← hsignal]

theorem runs_run {c : Cmd} {Q : Watch → c.Reply → Prop} (hpermits : w.Permits c)
    (h : ∀ a : c.Reply, Q (w.sees c a) a) : Runs (run c) w Q := by
  rintro hquiet ⟨a, sig⟩
  refine ⟨⟨fun _ => hquiet, hpermits⟩, ?_⟩
  cases sig with
  | none =>
      show (w.step ⟨c, (a, none)⟩).signal = none ∧ Q (w.step ⟨c, (a, none)⟩) a
      rw [step_none, sees_signal]
      exact ⟨hquiet, h a⟩
  -- the handler exits with the status of its signal
  | some sig => exact (rfl : sig.status = sig.status)

theorem runs_done {a : α} {Q : Watch → α → Prop} (h : Q w a) : Runs (done a) w Q :=
  fun hquiet => ⟨hquiet, h⟩

theorem runs_exit {status : ℕ} (h : status ∈ [3, 4, 5]) (Q : Watch → α → Prop) :
    Runs (exit status) w Q := by
  intro hquiet
  show Exited w status
  rw [Exited, hquiet]
  exact h

theorem runs_andThen {p : Part α} {f : α → Part β} {Q : Watch → α → Prop} {Q' : Watch → β → Prop}
    (hp : Runs p w Q) (hf : ∀ w a, Q w a → Runs (f a) w Q') : Runs (p.andThen f) w Q' :=
  fun hquiet => Prog.Guarded.andThen (hp hquiet) fun w a h => hf w a h.2 h.1

theorem runs_forEach {f : β → α → Part β} {I : Watch → Prop} {as : List α}
    (hf : ∀ w b, ∀ a ∈ as, I w → Runs (f b a) w fun w' _ => I w') (h : I w) (b : β) :
    Runs (Prog.forEach f as b) w fun w' _ => I w' := by
  intro hquiet
  apply Prog.Guarded.forEach (I := fun w' _ => w'.signal = none ∧ I w')
  · intro w b a ha hI
    exact hf w b a ha hI.2 hI.1
  · exact ⟨hquiet, h⟩

/-! ### The parts -/

/-- The snapshots so far. -/
structure Watch.Safe (base : Snapshot) (w : Watch) : Prop where
  baseline : w.baseline = some base
  quiet : w.quiet
  conf : ∃ conf ∈ w.conf, OnLoopback conf

theorem runs_remove (hsafe : w.Safe base) :
    Runs (run .remove) w fun w' _ => w'.Safe base :=
  runs_run trivial fun _ => ⟨hsafe.baseline, hsafe.quiet, hsafe.conf⟩

/-- An engine that is taken to be up was started, listens, and is found by `docker ps`. -/
theorem runs_startEngine (hsafe : w.Safe base) (e : String) :
    Runs (startEngine e) w fun w' up => w'.Safe base ∧
      (up = true → w'.started = some e ∧ w'.listens ∧ w'.shown) := by
  apply runs_andThen (runs_remove hsafe)
  intro w _ hsafe
  split
  -- `docker run` is known to have been asked for, and the rest comes from the answers
  · apply runs_andThen (Q := fun w' _ => w'.Safe base ∧ w'.started = some e)
    · exact runs_run (fun _ => hsafe.conf) fun _ =>
        ⟨⟨hsafe.baseline, hsafe.quiet, hsafe.conf⟩, rfl⟩
    · rintro w _ ⟨hsafe, hstarted⟩
      apply runs_andThen (Q := fun w' up => w'.Safe base ∧ w'.started = some e ∧
        (up = true → w'.listens))
      · exact runs_run trivial fun _ =>
          ⟨⟨hsafe.baseline, hsafe.quiet, hsafe.conf⟩, hstarted, fun hup => ⟨hstarted, hup⟩⟩
      · rintro w up ⟨hsafe, hstarted, hlistens⟩
        cases up with
        | true =>
            exact runs_run trivial fun _ => ⟨⟨hsafe.baseline, hsafe.quiet, hsafe.conf⟩,
              fun hfound => ⟨hstarted, hlistens rfl, hfound⟩⟩
        | false => exact runs_done ⟨hsafe, fun h => absurd h (by decide)⟩
  · exact runs_done ⟨hsafe, fun h => absurd h (by decide)⟩

/-- A snapshot that passes the check shows nothing new. -/
theorem clears_of_check (hbase : publicListeners cfg.locale base = some out)
    (hsafe : w.Safe base) {snap : Snapshot}
    (hcheck : check cfg.locale (substitute out) snap = .quiet) : w.Clears snap := by
  obtain ⟨hfailed, hexposed⟩ := check_spec hbase snap
  have hcomplete : snap.Complete := by
    by_contra hnot
    rw [hfailed.mpr hnot] at hcheck
    cases hcheck
  refine ⟨base, hsafe.baseline, hcomplete, ?_⟩
  intro addr haddr
  by_contra hnot
  rw [hexposed.mpr ⟨hcomplete, addr, haddr, hnot⟩] at hcheck
  cases hcheck

/-- A check that lets the script go on has changed what its snapshot changes. -/
theorem runs_assertNoNewPublic (hbase : publicListeners cfg.locale base = some out)
    (hsafe : w.Safe base) (c : Loopback.Check) :
    Runs (assertNoNewPublic cfg.locale (substitute out) c) w fun w' _ =>
      ∃ snap : Snapshot, w.Clears snap ∧ w' = w.sees (.ss c) snap := by
  apply runs_andThen (Q := fun w' snap => w' = w.sees (.ss c) snap)
  · exact runs_run trivial fun snap => rfl
  · rintro w' snap rfl
    cases hcheck : check cfg.locale (substitute out) snap with
    | quiet => exact runs_done ⟨snap, clears_of_check hbase hsafe hcheck, rfl⟩
    | ssFailed => exact runs_exit (by decide) _
    -- `cleanup` comes before the exit
    | exposed =>
        apply runs_andThen (Q := fun _ _ => True) (runs_run (c := .remove) trivial fun _ => trivial)
        intro _ _ _
        exact runs_exit (by decide) _

/-- The engine of the points is up, and stays so. -/
def Watch.Ready (base : Snapshot) (e : String) (w : Watch) : Prop :=
  w.Safe base ∧ w.Up e

theorem runs_point {k : Loopback.Key} (hready : w.Ready base k.1) (st : Vars) :
    Runs (point cfg st k) w fun w' _ => w'.Ready base k.1 := by
  refine runs_forEach ?_ hready st
  intro w st rep _ hready
  apply runs_andThen (Q := fun w' _ => w'.Ready base k.1)
  · exact runs_run hready.2 fun _ => hready
  · intro w _ hready
    exact runs_done hready

theorem runs_engine (hbase : publicListeners cfg.locale base = some out) (hsafe : w.Safe base)
    (st : Vars) (e : String) :
    Runs (engine cfg (substitute out) st e) w fun w' _ => w'.Safe base := by
  apply runs_andThen (runs_startEngine hsafe e)
  rintro w up ⟨hsafe, hup⟩
  cases up with
  | false => exact runs_andThen (runs_remove hsafe) fun w _ hsafe => runs_done hsafe
  | true =>
      apply runs_andThen (runs_assertNoNewPublic hbase hsafe (.started e))
      rintro w' _ ⟨snap, hclears, rfl⟩
      obtain ⟨hstarted, hlistens, hshown⟩ := hup rfl
      have hready : (w.sees (.ss (.started e)) snap).Ready base e :=
        ⟨⟨hsafe.baseline, ⟨hsafe.quiet, hclears⟩, hsafe.conf⟩,
          ⟨hstarted, hlistens, hshown, hclears⟩⟩
      apply runs_andThen (Q := fun w' _ => w'.Ready base e)
      · refine runs_forEach ?_ hready st
        intro w st k hk hready
        obtain ⟨wl, -, hk⟩ := List.mem_flatMap.mp hk
        obtain ⟨c, -, rfl⟩ := List.mem_map.mp hk
        exact runs_point (k := (e, wl, c.text)) hready st
      · intro w st hready
        exact runs_andThen (runs_remove hready.1) fun w _ hsafe => runs_done hsafe

theorem runs_sweep (hconf : ∃ conf ∈ w.conf, OnLoopback conf) (hquiet : w.quiet) :
    Runs (sweep cfg) w fun w' _ => w'.quiet ∧ w'.ended := by
  apply runs_andThen (Q := fun w' snap => w'.Safe snap)
  · exact runs_run trivial fun snap => ⟨rfl, hquiet, hconf⟩
  · intro w base hsafe
    cases hbase : publicListeners cfg.locale base with
    | none => exact runs_exit (by decide) _
    | some out =>
        apply runs_andThen (Q := fun w' _ => w'.Safe base)
        · exact runs_forEach (fun w st e _ hsafe => runs_engine hbase hsafe st e) hsafe _
        · intro w st hsafe
          apply runs_andThen (runs_assertNoNewPublic hbase hsafe .sweepEnd)
          rintro w' _ ⟨snap, hclears, rfl⟩
          apply runs_andThen (Q := fun w' _ => w'.quiet ∧ w'.ended)
          · exact runs_run trivial fun _ => ⟨⟨hsafe.quiet, hclears⟩, hclears⟩
          · intro w _ h
            exact runs_done h

/-! ### The script -/

theorem onLoopback_of_not_any {conf : List (List Char)} (h : ¬ conf.any binds = true) :
    OnLoopback conf := by
  intro line hline
  by_contra hline'
  exact h (List.any_eq_true.mpr ⟨line, hline, by simpa using hline'⟩)

theorem runs_main (cfg : Settings) :
    Runs (main cfg) .start fun w' _ => w'.quiet ∧ w'.ended := by
  apply runs_andThen (Q := fun w' conf => w'.quiet ∧ w'.conf = some (rewrite conf))
  · exact runs_run trivial fun conf => ⟨trivial, rfl⟩
  · rintro w conf ⟨hquiet, hconf⟩
    split
    · exact runs_exit (by decide) _
    · rename_i hbinds
      exact runs_sweep ⟨rewrite conf, hconf, onLoopback_of_not_any hbinds⟩ hquiet

/-- What is known in the end. -/
structure Watch.Ended (w : Watch) (r : Outcome) : Prop where
  summary : r.summarised.isSome = true → w.quiet ∧ w.ended
  signalled : ∀ sig, w.signal = some sig → r.exit = sig.status
  quiet : w.signal = none → r.exit ∈ [0, 3, 4, 5, 6]

theorem guarded_script (cfg : Settings) : (script cfg).Guarded watch Watch.Ended .start := by
  apply Prog.Guarded.bind (runs_main cfg rfl)
  rintro w r hr ⟨u, sig⟩
  refine ⟨⟨fun h => absurd rfl h, trivial⟩, ?_⟩
  -- a signal during the trap overrules the one that has led to it
  have hsignal : (w.step ⟨.remove, (u, sig)⟩).signal = sig.or w.signal := rfl
  cases r with
  | ok st =>
      obtain ⟨hquiet, hr⟩ := hr
      rw [hquiet, Option.or_none] at hsignal
      constructor
      · exact fun _ => hr
      · intro sig' hsig'
        obtain rfl : sig = some sig' := hsignal.symm.trans hsig'
        rfl
      · intro hnone
        obtain rfl : sig = none := hsignal.symm.trans hnone
        show (if 0 < st.failures then 6 else 0) ∈ _
        split <;> decide
  | error status =>
      have hexited : Exited w status := hr
      constructor
      · intro h
        cases sig <;> cases h
      · intro sig' hsig'
        have hor : sig.or w.signal = some sig' := hsignal.symm.trans hsig'
        cases sig with
        | some sig =>
            obtain rfl : sig = sig' := Option.some.inj hor
            rfl
        | none =>
            rw [Option.none_or] at hor
            rw [Exited, hor] at hexited
            exact hexited
      · intro hnone
        obtain ⟨rfl, hbefore⟩ := Option.or_eq_none_iff.mp (hsignal.symm.trans hnone)
        rw [Exited, hbefore] at hexited
        show status ∈ _
        simp only [List.mem_cons, List.not_mem_nil, or_false] at hexited ⊢
        omega

/-- The exit of a check that does not pass. -/
def stopStatus : Loopback.Listeners → ℕ
  | .quiet => 0
  | .ssFailed => 5
  | .exposed => 3

def startedChecks (env : Loopback.Env) (es : List String) : List Loopback.Check :=
  (es.filter env.starts).map .started

/-- The check does not pass. -/
def stops (env : Loopback.Env) (c : Loopback.Check) : Bool := decide (env.listeners c ≠ .quiet)

variable {env : Loopback.Env} {config : Loopback.Config}

theorem assertNoNewPublic_of_stops {c : Loopback.Check} (h : stops env c = true) :
    Loopback.assertNoNewPublic env c = .error (stopStatus (env.listeners c)) := by
  rw [Loopback.assertNoNewPublic]
  cases hc : env.listeners c with
  | quiet => simp [stops, hc] at h
  | ssFailed => rfl
  | exposed => rfl

theorem assertNoNewPublic_of_passes {c : Loopback.Check} (h : stops env c = false) :
    Loopback.assertNoNewPublic env c = .ok () := by
  have hc : env.listeners c = .quiet := by simpa [stops] using h
  rw [Loopback.assertNoNewPublic, hc]

/-- The loop over the engines stops at the first check that does not pass. -/
theorem foldlM_sweepEngine (env : Loopback.Env) (config : Loopback.Config) (es : List String) (st : Loopback.Sweep) :
    (∀ c, (startedChecks env es).find? (stops env) = some c →
      es.foldlM (Loopback.sweepEngine env config) st = .error (stopStatus (env.listeners c))) ∧
    ((startedChecks env es).find? (stops env) = none →
      ∃ st', es.foldlM (Loopback.sweepEngine env config) st = .ok st') := by
  induction es generalizing st with
  | nil => exact ⟨by simp [startedChecks], fun _ => ⟨st, rfl⟩⟩
  | cons e es ih =>
      rw [List.foldlM_cons, startedChecks, Loopback.sweepEngine]
      by_cases hstarts : env.starts e = true
      · rw [if_pos hstarts, List.filter_cons_of_pos hstarts, List.map_cons, List.find?_cons]
        cases hstops : stops env (.started e) with
        | true =>
            rw [assertNoNewPublic_of_stops hstops]
            refine ⟨?_, by simp⟩
            rintro c ⟨rfl⟩
            rfl
        | false =>
            rw [assertNoNewPublic_of_passes hstops]
            exact ih _
      · rw [if_neg hstarts, List.filter_cons_of_neg hstarts]
        exact ih _

/-- All the checks of a sweep. -/
def checks (env : Loopback.Env) (config : Loopback.Config) : List Loopback.Check :=
  startedChecks env config.engines ++ [.sweepEnd]

theorem sweep_stops (config : Loopback.Config) (hbase : env.listeners .baseline = .quiet) :
    (∀ c, (checks env config).find? (stops env) = some c →
      Loopback.sweep env config = .error (stopStatus (env.listeners c))) ∧
    ((checks env config).find? (stops env) = none → ∃ st, Loopback.sweep env config = .ok st) := by
  obtain ⟨herror, hok⟩ := foldlM_sweepEngine env config config.engines
    { failures := 0, tsv := [] }
  rw [Loopback.sweep, hbase, checks, List.find?_append]
  cases hfind : (startedChecks env config.engines).find? (stops env) with
  | some c =>
      rw [herror c hfind]
      refine ⟨?_, by simp⟩
      rintro c' hc'
      obtain rfl : c = c' := by simpa using hc'
      rfl
  | none =>
      obtain ⟨st, hst⟩ := hok hfind
      rw [hst, Option.none_or, List.find?_cons]
      cases hstops : stops env .sweepEnd with
      | true =>
          refine ⟨?_, by simp⟩
          rintro c ⟨rfl⟩
          change (Loopback.assertNoNewPublic env .sweepEnd >>= fun _ => Except.ok st) = _
          rw [assertNoNewPublic_of_stops hstops]
          rfl
      | false =>
          refine ⟨by simp, fun _ => ⟨st, ?_⟩⟩
          change (Loopback.assertNoNewPublic env .sweepEnd >>= fun _ => Except.ok st) = _
          rw [assertNoNewPublic_of_passes hstops]
          rfl

section Exit

variable {m : Machine}

/-- What the checks of the sweep over values are. -/
theorem listeners_spec (cfg : Settings) (hbase : (m.ss .baseline).Complete) {c : Loopback.Check}
    (hc : c ≠ .baseline) :
    ((m.env cfg.locale).listeners c = .ssFailed ↔ ¬ (m.ss c).Complete) ∧
    ((m.env cfg.locale).listeners c = .exposed ↔
      (m.ss c).Complete ∧ ∃ addr, (m.ss c).Public addr ∧ ¬ (m.ss .baseline).Public addr) := by
  rcases publicListeners_spec cfg.locale (m.ss .baseline) with ⟨-, hnot⟩ | ⟨-, lines, hlines, -, -⟩
  · exact absurd hbase hnot
  · have hlisteners : (m.env cfg.locale).listeners c = check cfg.locale
        (substitute (unlines (SortedLines.sortU cfg.locale.toCollation lines))) (m.ss c) := by
      change m.listeners cfg.locale c = _
      rw [Machine.listeners, hlines]
      exact if_neg hc
    rw [hlisteners]
    exact check_spec hlines (m.ss c)

theorem stops_iff (hbase : (m.ss .baseline).Complete) {c : Loopback.Check} (hc : c ≠ .baseline) :
    stops (m.env cfg.locale) c = true ↔ ¬ NothingNew (m.ss .baseline) (m.ss c) := by
  obtain ⟨hfailed, hexposed⟩ := listeners_spec cfg hbase hc
  rw [stops, decide_eq_true_eq, NothingNew, not_and_or, not_forall]
  simp only [Classical.not_imp]
  cases hl : (m.env cfg.locale).listeners c with
  | quiet =>
      rw [hl] at hfailed hexposed
      simp only [reduceCtorEq, false_iff, not_not, not_and] at hfailed hexposed
      simpa [hfailed] using hexposed hfailed
  | ssFailed => simpa using Or.inl (hfailed.mp hl)
  | exposed => simpa using Or.inr (hexposed.mp hl).2

theorem ne_baseline_of_mem {c : Loopback.Check} (h : c ∈ checks env config) : c ≠ .baseline := by
  rcases List.mem_append.mp h with h | h
  · obtain ⟨e, -, rfl⟩ := List.mem_map.mp h
    simp
  · rw [List.mem_singleton.mp h]
    simp

/-- The first check that does not pass. -/
def FirstStop (cfg : Settings) (m : Machine) (c : Loopback.Check) : Prop :=
  ∃ before after, checks (m.env cfg.locale) cfg.config = before ++ c :: after ∧
    (∀ c' ∈ before, NothingNew (m.ss .baseline) (m.ss c')) ∧
    ¬ NothingNew (m.ss .baseline) (m.ss c)

theorem FirstStop.mem {c : Loopback.Check} (h : FirstStop cfg m c) :
    c ∈ checks (m.env cfg.locale) cfg.config := by
  obtain ⟨before, after, heq, -⟩ := h
  simp [heq]

theorem find?_stops_iff (hbase : (m.ss .baseline).Complete) {c : Loopback.Check} :
    (checks (m.env cfg.locale) cfg.config).find? (stops (m.env cfg.locale)) = some c ↔
      FirstStop cfg m c := by
  rw [List.find?_eq_some_iff_append]
  constructor
  · rintro ⟨hstops, before, after, heq, hbefore⟩
    have hmem {c' : Loopback.Check} (h : c' ∈ before ++ c :: after) : c' ≠ .baseline :=
      ne_baseline_of_mem (heq ▸ h)
    refine ⟨before, after, heq, ?_, (stops_iff hbase (hmem (by simp))).mp hstops⟩
    intro c' hc'
    have hpasses := hbefore c' hc'
    by_contra hnot
    rw [(stops_iff hbase (hmem (by simp [hc']))).mpr hnot] at hpasses
    cases hpasses
  · rintro ⟨before, after, heq, hbefore, hnot⟩
    have hmem {c' : Loopback.Check} (h : c' ∈ before ++ c :: after) : c' ≠ .baseline :=
      ne_baseline_of_mem (heq ▸ h)
    refine ⟨(stops_iff hbase (hmem (by simp))).mpr hnot, before, after, heq, ?_⟩
    intro c' hc'
    have hpasses : ¬ stops (m.env cfg.locale) c' = true := by
      rw [stops_iff hbase (hmem (by simp [hc'])), not_not]
      exact hbefore c' hc'
    simpa using hpasses

theorem FirstStop.unique (hbase : (m.ss .baseline).Complete) {c c' : Loopback.Check}
    (h : FirstStop cfg m c) (h' : FirstStop cfg m c') : c = c' :=
  Option.some.inj (((find?_stops_iff hbase).mpr h).symm.trans ((find?_stops_iff hbase).mpr h'))

/-- Either there is one, or all checks pass. -/
theorem firstStop_or (cfg : Settings) (hbase : (m.ss .baseline).Complete) :
    (∃ c, FirstStop cfg m c) ∨
      (checks (m.env cfg.locale) cfg.config).find? (stops (m.env cfg.locale)) = none ∧
        ∀ c ∈ checks (m.env cfg.locale) cfg.config, NothingNew (m.ss .baseline) (m.ss c) := by
  cases hfind : (checks (m.env cfg.locale) cfg.config).find? (stops (m.env cfg.locale)) with
  | some c => exact Or.inl ⟨c, (find?_stops_iff hbase).mp hfind⟩
  | none =>
      refine Or.inr ⟨rfl, fun c hc => ?_⟩
      by_contra hnot
      exact List.find?_eq_none.mp hfind c hc ((stops_iff hbase (ne_baseline_of_mem hc)).mpr hnot)

/-- `init` stops the script before anything is started. -/
theorem exit_of_binds (hconf : ¬ OnLoopback (rewrite m.conf)) :
    ((script cfg).run m.act ()).2.exit = 4 := by
  have hany : (rewrite m.conf).any binds = true := by
    by_contra hnot
    exact hconf (onLoopback_of_not_any hnot)
  have hmain : (main cfg).run m.act () = ((), .error 4) := by
    rw [main, run_andThen]
    exact congrArg (fun p => Prog.run m.act p ()) (if_pos hany)
  rw [script, Prog.run_bind, hmain]
  rfl

section Script

variable (hconf : OnLoopback (rewrite m.conf))

include hconf

theorem exit_of_incomplete (hbase : ¬ (m.ss .baseline).Complete) :
    ((script cfg).run m.act ()).2.exit = 5 := by
  have hlisteners : (m.env cfg.locale).listeners .baseline = .ssFailed := by
    change m.listeners cfg.locale .baseline = _
    rcases publicListeners_spec cfg.locale (m.ss .baseline) with ⟨hnone, -⟩ | ⟨hcomplete, -⟩
    · rw [Machine.listeners, hnone]
    · exact absurd hcomplete hbase
  have hsweep : Loopback.sweep (m.env cfg.locale) cfg.config = .error 5 := by
    rw [Loopback.sweep, hlisteners]
    rfl
  rcases run_script cfg hconf with ⟨st, v, hsweep', -, -⟩ | ⟨status, hsweep', hrun⟩
  · rw [hsweep] at hsweep'
    cases hsweep'
  · rw [hsweep] at hsweep'
    cases hsweep'
    rw [hrun]
    rfl

variable (hbase : (m.ss .baseline).Complete)

include hbase

omit hconf in
theorem listeners_baseline : (m.env cfg.locale).listeners .baseline = .quiet := by
  change m.listeners cfg.locale .baseline = _
  rcases publicListeners_spec cfg.locale (m.ss .baseline) with ⟨-, hnot⟩ | ⟨-, lines, hlines, -, -⟩
  · exact absurd hbase hnot
  · rw [Machine.listeners, hlines]
    rfl

/-- A check that does not pass exits. -/
theorem exit_of_firstStop {c : Loopback.Check} (hc : FirstStop cfg m c) :
    (¬ (m.ss c).Complete ∧ ((script cfg).run m.act ()).2.exit = 5) ∨
    ((m.ss c).Complete ∧ (∃ addr, (m.ss c).Public addr ∧ ¬ (m.ss .baseline).Public addr) ∧
      ((script cfg).run m.act ()).2.exit = 3) := by
  have hexit : ((script cfg).run m.act ()).2.exit =
      stopStatus ((m.env cfg.locale).listeners c) := by
    have herror := (sweep_stops cfg.config (listeners_baseline hbase)).1 c
      ((find?_stops_iff hbase).mpr hc)
    rcases run_script cfg hconf with ⟨st, v, hsweep, -, -⟩ | ⟨status, hsweep, hrun⟩
    · rw [herror] at hsweep
      cases hsweep
    · rw [herror, Except.error.injEq] at hsweep
      rw [hrun, hsweep]
      rfl
  obtain ⟨hfailed, hexposed⟩ := listeners_spec cfg hbase (ne_baseline_of_mem hc.mem)
  by_cases hcomplete : (m.ss c).Complete
  · have haddr : ∃ addr, (m.ss c).Public addr ∧ ¬ (m.ss .baseline).Public addr := by
      obtain ⟨before, after, -, -, hnot⟩ := hc
      by_contra hno
      refine hnot ⟨hcomplete, fun addr hnow => ?_⟩
      by_contra hbefore
      exact hno ⟨addr, hnow, hbefore⟩
    rw [hexposed.mpr ⟨hcomplete, haddr⟩] at hexit
    exact Or.inr ⟨hcomplete, haddr, hexit⟩
  · rw [hfailed.mpr hcomplete] at hexit
    exact Or.inl ⟨hcomplete, hexit⟩

theorem exit_of_pass
    (hnone : (checks (m.env cfg.locale) cfg.config).find? (stops (m.env cfg.locale)) = none) :
    ((script cfg).run m.act ()).2.exit ∈ [0, 6] := by
  obtain ⟨st, hst⟩ := (sweep_stops cfg.config (listeners_baseline hbase)).2 hnone
  rcases run_script cfg hconf with ⟨st, v, -, hrun, -⟩ | ⟨status, hsweep, -⟩
  · rw [hrun, outcome]
    dsimp only
    split
    · simp
    · simp
  · rw [hst] at hsweep
    cases hsweep

end Script

/-- What the exit status says of a run without signals. -/
structure SaysWhatStopped (cfg : Settings) (m : Machine) (exit : ℕ) : Prop where
  binds : exit = 4 ↔ ¬ OnLoopback (rewrite m.conf)
  ssFailed : exit = 5 ↔ OnLoopback (rewrite m.conf) ∧
    (¬ (m.ss .baseline).Complete ∨ ∃ c, FirstStop cfg m c ∧ ¬ (m.ss c).Complete)
  exposed : exit = 3 ↔ OnLoopback (rewrite m.conf) ∧ (m.ss .baseline).Complete ∧
    ∃ c, FirstStop cfg m c ∧ (m.ss c).Complete ∧
      ∃ addr, (m.ss c).Public addr ∧ ¬ (m.ss .baseline).Public addr
  passed : exit ∈ [0, 6] ↔ OnLoopback (rewrite m.conf) ∧ (m.ss .baseline).Complete ∧
    ∀ c ∈ checks (m.env cfg.locale) cfg.config, NothingNew (m.ss .baseline) (m.ss c)

theorem saysWhatStopped (cfg : Settings) (m : Machine) :
    SaysWhatStopped cfg m ((script cfg).run m.act ()).2.exit := by
  by_cases hconf : OnLoopback (rewrite m.conf)
  · by_cases hbase : (m.ss .baseline).Complete
    · have hstops {c : Loopback.Check} (hc : FirstStop cfg m c) :
          ¬ ∀ c ∈ checks (m.env cfg.locale) cfg.config, NothingNew (m.ss .baseline) (m.ss c) := by
        obtain ⟨-, -, -, -, hnot⟩ := id hc
        exact fun hall => hnot (hall c hc.mem)
      -- there is one first check that does not pass at most, and it decides
      rcases firstStop_or cfg hbase with ⟨c, hc⟩ | ⟨hnone, hall⟩
      · have hsame (c' : Loopback.Check) : FirstStop cfg m c' ↔ c' = c :=
          ⟨fun hc' => hc'.unique hbase hc, fun heq => heq ▸ hc⟩
        rcases exit_of_firstStop hconf hbase hc with ⟨hfailed, hexit⟩ | ⟨hcomplete, haddr, hexit⟩
        · constructor <;> simp [hexit, hsame, hconf, hbase, hfailed, hstops hc]
        · constructor <;> simp [hexit, hsame, hconf, hbase, hcomplete, haddr, hstops hc]
      · have hno (c : Loopback.Check) : ¬ FirstStop cfg m c := fun hc => hstops hc hall
        have hexit := exit_of_pass hconf hbase hnone
        have hother {status : ℕ} (h : status ∉ [0, 6]) :
            ((script cfg).run m.act ()).2.exit ≠ status :=
          fun heq => h (heq ▸ hexit)
        exact
          { binds := iff_of_false (hother (by decide)) (not_not_intro hconf)
            ssFailed := iff_of_false (hother (by decide)) (by simp [hno, hbase])
            exposed := iff_of_false (hother (by decide)) (by simp [hno])
            passed := iff_of_true hexit ⟨hconf, hbase, hall⟩ }
    · constructor <;> simp [exit_of_incomplete hconf hbase, hconf, hbase]
  · constructor <;> simp [exit_of_binds hconf, hconf]

/-- The exit status says what stopped the script. In every run it is that of the last signal
that has come in, and without one it is 0, 3, 4, 5 or 6. Then status 4 is a configuration
that binds another interface than the loopback one, 5 is a snapshot that failed and 3 one
with a public address that the baseline does not have; in both cases it is the first of the
checks that does not pass, and the checks are those of the engines that start and the one at
the end. Only when all of them pass the script ends with 0 or 6. -/
theorem exit_says_what_stopped (cfg : Settings) :
    (∀ tr r, (script cfg).Ends tr r →
      (∀ sig, (tr.foldl Watch.step .start).signal = some sig → r.exit = sig.status) ∧
        ((tr.foldl Watch.step .start).signal = none → r.exit ∈ [0, 3, 4, 5, 6])) ∧
    ∀ m : Machine, SaysWhatStopped cfg m ((script cfg).run m.act ()).2.exit := by
  constructor
  · intro tr r hends
    obtain ⟨-, hended⟩ := (guarded_script cfg).of_ends hends
    exact ⟨hended.signalled, hended.quiet⟩
  · exact saysWhatStopped cfg

/-- A machine without public listeners, where an engine binds to every interface. -/
def exposing : Machine :=
  { steady with
    ss := fun c =>
      { tcp := some (if c = .baseline then [] else "LISTEN 0 511 0.0.0.0:6379 0.0.0.0:*\n".toList)
        udp := some []
        piped := true } }

/-- A run that is interrupted at once, and once more when the container is removed. -/
def interrupted (m : Machine) : Act Unit Answer
  | .remove, s => (s, ((), some .term))
  | c, s => (s, (m.reply c, some .int))

theorem exit_says_what_stopped_exposing :
    ((script sample).run exposing.act ()).2.exit = 3 ∧
      ((script sample).run (interrupted exposing) ()).2.exit = 143 := by
  obtain ⟨hsignals, hstopped⟩ := exit_says_what_stopped sample
  constructor
  · have hpublic : (exposing.ss (.started "redis")).Public "0.0.0.0:6379".toList :=
      ⟨by decide, by decide, "LISTEN 0 511 0.0.0.0:6379 0.0.0.0:*".toList,
        Or.inl ⟨_, rfl, by decide +kernel⟩, by decide +kernel⟩
    have hbefore : ¬ (exposing.ss .baseline).Public "0.0.0.0:6379".toList := by
      rintro ⟨hne, -, line, hline, heq⟩
      have hnil : line = [] := by
        rcases hline with ⟨text, htext, hline⟩ | ⟨text, htext, hline⟩
        · cases htext
          exact List.mem_singleton.mp hline
        · cases htext
          exact List.mem_singleton.mp hline
      rw [hnil] at heq
      exact hne heq.symm
    have hstop : FirstStop sample exposing (.started "redis") :=
      ⟨[], [.started "aerospike", .sweepEnd], rfl, by simp, fun h => hbefore (h.2 _ hpublic)⟩
    exact (hstopped exposing).exposed.mpr
      ⟨steady_conf, ⟨rfl, rfl, rfl⟩, _, hstop, ⟨rfl, rfl, rfl⟩, _, hpublic, hbefore⟩
  · exact (hsignals _ _ (Prog.ends_events (interrupted exposing) (script sample) ())).1 .term rfl

end Exit

end RostamBench.Netkv.LoopbackRun
