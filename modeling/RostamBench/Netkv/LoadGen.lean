import RostamBench.Lib.Tally
import RostamBench.Netkv.Workload
import Mathlib.Data.List.Infix

/-!
`run` of `netkv`: the measuring loop of the key-value load generator.

What a worker does not decide itself comes from outside: the clock, which it
reads three times an iteration, and the error of the operation. A `Reading` is
one iteration's worth of that, and a worker is a function of the list of its
readings. The list may end before the deadline, and then the worker is still in
its loop (`Status.running`); `run` returns once every worker has left it, and then
reports the iterations that were measured (`run_reports`).

The requests a worker issues are kept beside its counters. They depend on the
readings in one way only, namely in how many of them there are: the draws of an
iteration are made from the worker's own source, and nothing a server answers
reaches that source. `plan` is the list of requests the source holds.
-/

namespace RostamBench.Netkv

open BigEndian

/-- What one iteration of a worker sees: `now` at the top of the loop, the clock
before and after the operation, and the operation's error. -/
structure Reading where
  now : ℤ
  t0 : ℤ
  t1 : ℤ
  err : Option String
  deriving DecidableEq, Repr

/-- `time.Since(t0).Nanoseconds()`. -/
def Reading.latency (r : Reading) : ℤ := r.t1 - r.t0

/-- The two deadlines of a run. -/
structure Window where
  warmDeadline : ℤ
  deadline : ℤ

/-- The deadlines of a run that starts at `start`; durations add with
wrap-around. -/
def Window.of (start : ℤ) (dur warm : Int64) : Window where
  warmDeadline := start + warm.toInt
  deadline := start + (warm + dur).toInt

inductive Status
  | running
  /-- `rng.Intn(0)`, or a key index out of range. -/
  | panicked
  | finished
  deriving DecidableEq, Repr

/-- The local variables of a worker, and the requests it has issued. -/
structure Worker where
  ops : Int64
  errs : Int64
  lat : List ℤ
  requests : List Request
  status : Status
  deriving DecidableEq

def Worker.initial : Worker :=
  { ops := 0, errs := 0, lat := [], requests := [], status := .running }

/-- Every measured iteration is counted, and an error is counted beside it. -/
def Worker.measure (w : Worker) (r : Reading) : Worker :=
  { w with
    ops := w.ops + 1
    errs := if r.err = none then w.errs else w.errs + 1
    lat := w.lat ++ [r.latency] }

variable {σ : Type*}

/-- `pick`: the index of the next key; `none` is the panic of `Intn(0)`. -/
def pick (R : Rand σ) (zipf : Bool) (n : ℕ) (rng : σ) : Option ℤ × σ :=
  if zipf then
    let (z, rng) := R.zipf (UInt64.ofInt (n - 1)) rng
    (some z.toInt64.toInt, rng)
  else if n = 0 then (none, rng)
  else
    let (i, rng) := R.intn n rng
    (some i, rng)

/-- `keys[idx]`. -/
def keyAt (keys : List Bytes) : Option ℤ → Option Bytes
  | none => none
  | some idx => if 0 ≤ idx then keys[idx.toNat]? else none

/-- The loop of a worker. -/
def loop (R : Rand σ) (keys : List Bytes) (zipf : Bool) (op : Op σ) (win : Window) :
    List Reading → σ → Worker → Worker
  | [], _, w => w
  | r :: rs, rng, w =>
      if win.deadline < r.now then { w with status := .finished }
      else
        let (idx, rng) := pick R zipf keys.length rng
        match keyAt keys idx with
        | none => { w with status := .panicked }
        | some key =>
            let (req, rng) := op rng key
            let w := { w with requests := w.requests ++ [req] }
            loop R keys zipf op win rs rng
              (if win.warmDeadline < r.now then w.measure r else w)

/-- The source of worker `w`. -/
def workerSource (R : Rand σ) (w : ℕ) : σ := R.newSource (Int64.ofNat w * 2654435761 + 1)

/-- Worker `w` of a run. -/
def worker (R : Rand σ) (keys : List Bytes) (zipf : Bool) (op : Op σ) (win : Window) (w : ℕ)
    (readings : List Reading) : Worker :=
  loop R keys zipf op win readings (workerSource R w) .initial

/-! ### The requests of a worker -/

/-- The requests of `n` iterations, as far as no panic ends them. -/
def plan (R : Rand σ) (keys : List Bytes) (zipf : Bool) (op : Op σ) : ℕ → σ → List Request
  | 0, _ => []
  | n + 1, rng =>
      let (idx, rng) := pick R zipf keys.length rng
      match keyAt keys idx with
      | none => []
      | some key =>
          let (req, rng) := op rng key
          req :: plan R keys zipf op n rng

variable {R : Rand σ} {keys : List Bytes} {zipf : Bool} {op : Op σ} {win : Window}

theorem plan_isPrefix {m n : ℕ} (hmn : m ≤ n) (rng : σ) :
    plan R keys zipf op m rng <+: plan R keys zipf op n rng := by
  induction m generalizing n rng with
  | zero => exact List.nil_prefix
  | succ m ih =>
      obtain ⟨n, rfl⟩ := Nat.exists_eq_succ_of_ne_zero (show n ≠ 0 by omega)
      rw [plan, plan]
      cases hkey : keyAt keys (pick R zipf keys.length rng).1 with
      | none => simp [hkey]
      | some key =>
          simp only [hkey]
          exact (List.prefix_cons_inj _).mpr (ih (by omega) _)

/-- Whatever the readings, a worker issues the requests its source holds. -/
theorem loop_requests (readings : List Reading) (rng : σ) (w : Worker) :
    ∃ reqs, (loop R keys zipf op win readings rng w).requests = w.requests ++ reqs ∧
      reqs <+: plan R keys zipf op readings.length rng := by
  induction readings generalizing rng w with
  | nil => exact ⟨[], by simp [loop], List.nil_prefix⟩
  | cons r rs ih =>
      rw [loop]
      split
      · exact ⟨[], by simp, List.nil_prefix⟩
      · rw [List.length_cons, plan]
        cases hkey : keyAt keys (pick R zipf keys.length rng).1 with
        | none => exact ⟨[], by simp [hkey], List.nil_prefix⟩
        | some key =>
            simp only [hkey]
            generalize hreq : op (pick R zipf keys.length rng).2 key = p
            obtain ⟨req, rng'⟩ := p
            generalize hw : (if win.warmDeadline < r.now then _ else _ : Worker) = w'
            have hw' : w'.requests = w.requests ++ [req] := by
              rw [← hw]
              split <;> rfl
            obtain ⟨reqs, heq, hprefix⟩ := ih rng' w'
            refine ⟨req :: reqs, ?_, (List.prefix_cons_inj _).mpr hprefix⟩
            rw [heq, hw']
            simp

theorem worker_requests (R : Rand σ) (keys : List Bytes) (zipf : Bool) (op : Op σ) (win : Window)
    (w : ℕ) (readings : List Reading) :
    (worker R keys zipf op win w readings).requests <+:
      plan R keys zipf op readings.length (workerSource R w) := by
  obtain ⟨reqs, heq, hprefix⟩ := loop_requests readings (workerSource R w) .initial
  rw [worker, heq]
  exact hprefix

/-- Whatever two engines answer and the clocks show, the requests of a worker in
the two runs agree as far as both go. -/
theorem identical_workload (R : Rand σ) (nKeys : ℕ) (mode : Mode) (readPct : ℤ) (valSize : ℕ)
    (zipf : Bool) (w : ℕ) (eng₁ eng₂ : Engine) {op₁ op₂ : Op σ}
    (h₁ : eng₁.op R readPct (mkVal valSize) mode = some op₁)
    (h₂ : eng₂.op R readPct (mkVal valSize) mode = some op₂)
    (win₁ win₂ : Window) (readings₁ readings₂ : List Reading) :
    (worker R (mkKeys nKeys) zipf op₁ win₁ w readings₁).requests <+:
        (worker R (mkKeys nKeys) zipf op₂ win₂ w readings₂).requests ∨
      (worker R (mkKeys nKeys) zipf op₂ win₂ w readings₂).requests <+:
        (worker R (mkKeys nKeys) zipf op₁ win₁ w readings₁).requests := by
  obtain rfl := Engine.op_unique h₁ h₂
  -- Both are a start of what the source holds for the longer of the two runs.
  have hmax (win : Window) {readings : List Reading}
      (hlen : readings.length ≤ max readings₁.length readings₂.length) :
      (worker R (mkKeys nKeys) zipf op₁ win w readings).requests <+:
        plan R (mkKeys nKeys) zipf op₁ (max readings₁.length readings₂.length)
          (workerSource R w) :=
    (worker_requests R _ zipf op₁ win w readings).trans (plan_isPrefix hlen _)
  exact List.prefix_or_prefix_of_prefix (hmax win₁ (Nat.le_max_left _ _))
    (hmax win₂ (Nat.le_max_right _ _))

/-- A source with one word of state. -/
def wordRand : Rand UInt64 where
  newSource seed := seed.toUInt64
  intn n s := (s.toNat % n, s * 6364136223846793005 + 1)
  int63n n s := (Int64.ofNat (s.toNat % n.toInt.toNat), s * 6364136223846793005 + 1)
  zipf imax s := (s % (imax + 1), s * 6364136223846793005 + 1)

/-- Two iterations against one server and three against another, which fails
once. -/
theorem identical_workload_atomic :
    ∃ op₁ op₂, Engine.rostam.op wordRand 100 (mkVal 4) .atomic = some op₁ ∧
      Engine.aerospike.op wordRand 100 (mkVal 4) .atomic = some op₂ ∧
      ((worker wordRand (mkKeys 3) false op₁ ⟨5, 20⟩ 1
          [⟨1, 1, 4, none⟩, ⟨6, 6, 9, none⟩]).requests <+:
          (worker wordRand (mkKeys 3) false op₂ ⟨0, 9⟩ 1
            [⟨2, 2, 3, none⟩, ⟨4, 4, 5, some "timeout"⟩, ⟨7, 7, 8, none⟩]).requests ∨
        (worker wordRand (mkKeys 3) false op₂ ⟨0, 9⟩ 1
            [⟨2, 2, 3, none⟩, ⟨4, 4, 5, some "timeout"⟩, ⟨7, 7, 8, none⟩]).requests <+:
          (worker wordRand (mkKeys 3) false op₁ ⟨5, 20⟩ 1
            [⟨1, 1, 4, none⟩, ⟨6, 6, 9, none⟩]).requests) :=
  ⟨_, _, rfl, rfl, identical_workload wordRand 3 .atomic 100 4 false 1 .rostam .aerospike rfl rfl
    ⟨5, 20⟩ ⟨0, 9⟩ _ _⟩

/-! ### The result of a run -/

/-- What the workers of a run see, the order in which they add up their counters,
and the clock when all are done. -/
structure Env (conns : ℕ) where
  start : ℤ
  readings : Fin conns → List Reading
  order : List (Fin conns)
  order_perm : order.Perm (List.finRange conns)
  stop : ℤ

structure Result where
  ops : Int64
  errs : Int64
  elapsed : ℤ
  lat : List ℤ

/-- `run`, once every worker has finished. -/
def run (R : Rand σ) (keys : List Bytes) (conns : ℕ) (dur warm : Int64) (zipf : Bool) (op : Op σ)
    (env : Env conns) : Option Result :=
  let win := Window.of env.start dur warm
  let ws := fun w : Fin conns => worker R keys zipf op win w (env.readings w)
  if ∀ w, (ws w).status = .finished then
    some { ops := Tally.addAll env.order fun w => (ws w).ops
           errs := Tally.addAll env.order fun w => (ws w).errs
           elapsed := env.stop - win.warmDeadline
           lat := Tally.merged fun w => (ws w).lat }
  else none

/-- The iterations a worker measures: up to the deadline, past the warmup. -/
def measured (win : Window) (readings : List Reading) : List Reading :=
  (readings.takeWhile fun r => decide (r.now ≤ win.deadline)).filter fun r =>
    decide (win.warmDeadline < r.now)

/-- The operation returned an error. -/
def Reading.failed (r : Reading) : Bool := r.err.isSome

/-- What is still to be counted, with `r` counted already and with `r` in front. -/
theorem Worker.measure_counts (w : Worker) (r : Reading) (ms : List Reading) :
    (w.measure r).ops + Int64.ofNat ms.length = w.ops + Int64.ofNat (r :: ms).length ∧
      (w.measure r).errs + Int64.ofNat (ms.countP Reading.failed) =
        w.errs + Int64.ofNat ((r :: ms).countP Reading.failed) ∧
      (w.measure r).lat ++ ms.map Reading.latency = w.lat ++ (r :: ms).map Reading.latency := by
  refine ⟨?_, ?_, ?_⟩
  · rw [List.length_cons, Nat.add_comm, Int64.ofNat_add, ← Int64.add_assoc]
    rfl
  · cases herr : r.err with
    | none => simp [Worker.measure, Reading.failed, herr]
    | some msg =>
        rw [List.countP_cons_of_pos (by simp [Reading.failed, herr]), Nat.add_comm,
          Int64.ofNat_add, ← Int64.add_assoc]
        simp [Worker.measure, herr]
  · simp [Worker.measure]

/-- A worker that finishes has counted and sampled everything it has measured. -/
theorem loop_counts {readings : List Reading} {rng : σ} {w : Worker}
    (h : (loop R keys zipf op win readings rng w).status = .finished)
    (hw : w.status ≠ .finished) :
    (loop R keys zipf op win readings rng w).ops =
        w.ops + Int64.ofNat (measured win readings).length ∧
      (loop R keys zipf op win readings rng w).errs =
        w.errs + Int64.ofNat ((measured win readings).countP Reading.failed) ∧
      (loop R keys zipf op win readings rng w).lat =
        w.lat ++ (measured win readings).map Reading.latency := by
  induction readings generalizing rng w with
  | nil => exact absurd h hw
  | cons r rs ih =>
      rw [loop] at h ⊢
      by_cases hlast : win.deadline < r.now
      · have hmeasured : measured win (r :: rs) = [] := by simp [measured, hlast]
        rw [if_pos hlast, hmeasured]
        simp
      · rw [if_neg hlast] at h ⊢
        have hnow : r.now ≤ win.deadline := not_lt.mp hlast
        cases hkey : keyAt keys (pick R zipf keys.length rng).1 with
        | none => simp [hkey] at h
        | some key =>
            simp only [hkey] at h ⊢
            by_cases hwarm : win.warmDeadline < r.now
            · have hmeasured : measured win (r :: rs) = r :: measured win rs := by
                simp [measured, hnow, hwarm]
              rw [if_pos hwarm] at h ⊢
              obtain ⟨hops, herrs, hlat⟩ := ih h hw
              rw [hops, herrs, hlat, hmeasured]
              exact Worker.measure_counts _ r _
            · have hmeasured : measured win (r :: rs) = measured win rs := by
                simp [measured, hnow, hwarm]
              rw [if_neg hwarm] at h ⊢
              rw [hmeasured]
              exact ih h hw

/-- A worker whose clock passes the deadline leaves its loop. -/
theorem loop_not_running {readings : List Reading} {rng : σ} {w : Worker}
    (h : ∃ r ∈ readings, win.deadline < r.now) :
    (loop R keys zipf op win readings rng w).status ≠ .running := by
  induction readings generalizing rng w with
  | nil => simp at h
  | cons r rs ih =>
      rw [loop]
      by_cases hlast : win.deadline < r.now
      · simp [hlast]
      · rw [if_neg hlast]
        cases hkey : keyAt keys (pick R zipf keys.length rng).1 with
        | none => simp [hkey]
        | some key =>
            simp only [hkey]
            refine ih ?_
            simpa [hlast] using h

/-- What a finished run reports: every measured iteration is counted and sampled,
and the failed ones are errors besides. -/
theorem run_reports {conns : ℕ} {dur warm : Int64} {env : Env conns} {res : Result}
    (h : run R keys conns dur warm zipf op env = some res) :
    Tally.Reports
      (Tally.all fun w => measured (Window.of env.start dur warm) (env.readings w))
      (fun _ => true) Reading.failed Reading.latency 1 res.ops res.errs res.lat := by
  rw [run] at h
  simp only at h
  split at h
  · rename_i hfinished
    obtain rfl := Option.some.inj h
    refine Tally.Reports.all env.order_perm fun w => ?_
    obtain ⟨hops, herrs, hlat⟩ := loop_counts (hfinished w) (by simp [Worker.initial])
    refine ⟨?_, ?_, ?_⟩
    · rw [worker, hops]
      simp [Worker.initial]
    · rw [worker, herrs]
      simp [Worker.initial]
    · rw [worker, hlat]
      simp [Worker.initial]
  · cases h

end RostamBench.Netkv
