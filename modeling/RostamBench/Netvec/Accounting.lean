import RostamBench.Lib.ClosedLoop
import RostamBench.Netvec.Run

/-!
The measured window of the two load generators.

Their workers are closed loops, so `Lib.ClosedLoop` applies: on a clock that never
goes back the latencies a worker records are the lengths of disjoint spans between
the warmup deadline and the end of the run, and the report counts what it samples.

The window itself is `elapsed`, which a run with a negative duration may end before
it has begun. Then nothing is recorded, and the sums are bounded by zero and not by
`elapsed`. In `netvec` a post counts for its batch, in an `int64` that may wrap
around.
-/

namespace RostamBench.Netkv

open BigEndian ClosedLoop

variable {σ : Type*} {R : Rand σ} {keys : List Bytes} {zipf : Bool} {op : Op σ} {win : Window}

def Reading.lap (r : Reading) : Lap := { now := r.now, t0 := r.t0, t1 := r.t1 }

/-- No worker sees the clock go back, and the run ends after all of them. -/
def Env.Monotone {conns : ℕ} (env : Env conns) (win : Window) : Prop :=
  ∀ w, ClosedLoop.Monotone Reading.lap env.start win.deadline env.stop (env.readings w)

theorem measured_eq_window (readings : List Reading) :
    measured win readings = window Reading.lap win.warmDeadline win.deadline readings :=
  rfl

/-- A worker leaves its loop when its clock has passed the deadline. -/
theorem loop_past_deadline {readings : List Reading} {rng : σ} {w : Worker}
    (h : (loop R keys zipf op win readings rng w).status = .finished)
    (hw : w.status ≠ .finished) : ∃ r ∈ readings, win.deadline < r.now := by
  induction readings generalizing rng w with
  | nil => exact absurd h hw
  | cons r rs ih =>
      by_cases hlast : win.deadline < r.now
      · exact ⟨r, List.mem_cons_self, hlast⟩
      · rw [loop, if_neg hlast] at h
        cases hkey : keyAt keys (pick R zipf keys.length rng).1 with
        | none => simp [hkey] at h
        | some key =>
            simp only [hkey] at h
            obtain ⟨r', hr', hlate⟩ := ih h (by split <;> exact hw)
            exact ⟨r', List.mem_cons_of_mem _ hr', hlate⟩

variable {conns : ℕ} {dur warm : Int64} {env : Env conns} {res : Result}

/-- The account of one worker. -/
theorem worker_account (hclock : env.Monotone win) {w : Fin conns}
    (hfinished : (worker R keys zipf op win w (env.readings w)).status = .finished) :
    Account Reading.lap win.warmDeadline win.deadline env.stop (fun _ => true) Reading.failed 1
      (env.readings w) (worker R keys zipf op win w (env.readings w)).ops
      (worker R keys zipf op win w (env.readings w)).errs
      (worker R keys zipf op win w (env.readings w)).lat := by
  obtain ⟨hops, herrs, hlat⟩ := loop_counts hfinished (by simp [Worker.initial])
  refine Account.of_window (hclock w) ?_ ?_ ?_
  · rw [worker, hops, measured_eq_window]
    simp [Worker.initial]
  · rw [worker, herrs, measured_eq_window]
    simp [Worker.initial]
  · rw [worker, hlat, measured_eq_window, List.filter_true]
    rfl

/-- The account of a `netkv` run. -/
theorem run_accounts (h : run R keys conns dur warm zipf op env = some res)
    (hwin : win = Window.of env.start dur warm) (hclock : env.Monotone win) :
    (∀ w, Account Reading.lap win.warmDeadline win.deadline env.stop (fun _ => true)
      Reading.failed 1 (env.readings w) (worker R keys zipf op win w (env.readings w)).ops
      (worker R keys zipf op win w (env.readings w)).errs
      (worker R keys zipf op win w (env.readings w)).lat) ∧
    Accounts res.elapsed 1 (fun w => (worker R keys zipf op win w (env.readings w)).lat) res.ops
      res.lat ∧
    (0 < conns → win.warmDeadline ≤ win.deadline → 0 < res.elapsed) := by
  subst hwin
  rw [run] at h
  simp only at h
  split at h
  · rename_i hfinished
    obtain rfl := Option.some.inj h
    refine ⟨fun w => worker_account hclock (hfinished w),
      Accounts.all env.order_perm fun w => worker_account hclock (hfinished w), ?_⟩
    intro hconns hwindow
    have hpast := loop_past_deadline (hfinished ⟨0, hconns⟩) (by simp [Worker.initial])
    have hstop := (hclock ⟨0, hconns⟩).deadline_lt_stop hpast
    show 0 < env.stop - (Window.of env.start dur warm).warmDeadline
    omega
  · cases h

end RostamBench.Netkv

namespace RostamBench.Netvec

open BigEndian Netkv ClosedLoop

variable {σ : Type*} {R : Netkv.Rand σ} {points batch : ℤ} {vecs : List Bytes} {win : Window}

def Reading.lap (r : Reading) : Lap := { now := r.now, t0 := r.t0, t1 := r.t1 }

/-- No worker sees the clock go back, and the run ends after all of them. -/
def Env.Monotone {conns : ℕ} (env : Env conns) (win : Window) : Prop :=
  ∀ w, ClosedLoop.Monotone Reading.lap env.start win.deadline env.stop (env.readings w)

theorem measured_eq_window (readings : List Reading) :
    measured win readings = window Reading.lap win.warmDeadline win.deadline readings :=
  rfl

theorem loop_past_deadline {readings : List Reading} {rng : σ} {w : Worker}
    (h : (loop R points batch vecs win readings rng w).status = .finished)
    (hw : w.status ≠ .finished) : ∃ r ∈ readings, win.deadline < r.now := by
  induction readings generalizing rng w with
  | nil => exact absurd h hw
  | cons r rs ih =>
      by_cases hlast : win.deadline < r.now
      · exact ⟨r, List.mem_cons_self, hlast⟩
      · rw [loop, if_neg hlast] at h
        cases hbody : drawBody R points batch vecs rng with
        | none => simp [hbody] at h
        | some p =>
            simp only [hbody] at h
            obtain ⟨r', hr', hlate⟩ := ih h (by split <;> simpa [Worker.measure_status] using hw)
            exact ⟨r', List.mem_cons_of_mem _ hr', hlate⟩

/-- A worker whose draws are in range leaves its loop when the deadline has
passed. -/
theorem loop_finished {readings : List Reading} {rng : σ} {w : Worker}
    (hdraw : ∀ rng, (drawBody R points batch vecs rng).isSome)
    (hend : ∃ r ∈ readings, win.deadline < r.now) :
    (loop R points batch vecs win readings rng w).status = .finished := by
  induction readings generalizing rng w with
  | nil => simp at hend
  | cons r rs ih =>
      rw [loop]
      by_cases hlast : win.deadline < r.now
      · rw [if_pos hlast]
      · obtain ⟨⟨body, rng'⟩, hbody⟩ := Option.isSome_iff_exists.mp (hdraw rng)
        rw [if_neg hlast, hbody]
        apply ih
        obtain ⟨r', hr', hlate⟩ := hend
        rcases List.mem_cons.mp hr' with rfl | hr'
        · exact absurd hlate hlast
        · exact ⟨r', hr', hlate⟩

variable {conns : ℕ} {duration warmup : ℤ} {env : Env conns} {res : Result}

theorem worker_account (hclock : env.Monotone win) {w : Fin conns}
    (hfinished : (worker R points batch vecs win w (env.readings w)).status = .finished) :
    Account Reading.lap win.warmDeadline win.deadline env.stop Reading.ok (fun r => !r.ok)
      (Int64.ofInt batch) (env.readings w) (worker R points batch vecs win w (env.readings w)).ops
      (worker R points batch vecs win w (env.readings w)).errs
      (worker R points batch vecs win w (env.readings w)).lat := by
  obtain ⟨hops, herrs, hlat⟩ := loop_counts hfinished (by simp [Worker.initial])
  refine Account.of_window (hclock w) ?_ ?_ ?_
  · rw [worker, hops, measured_eq_window]
    simp [Worker.initial]
  · rw [worker, herrs, measured_eq_window]
    simp [Worker.initial]
  · rw [worker, hlat, measured_eq_window]
    rfl

/-- The account of a `netvec` run. -/
theorem run_accounts (h : run R vecs conns points batch duration warmup env = some res)
    (hwin : win = windowOf env.start duration warmup) (hclock : env.Monotone win) :
    (∀ w, Account Reading.lap win.warmDeadline win.deadline env.stop Reading.ok (fun r => !r.ok)
      (Int64.ofInt batch) (env.readings w)
      (worker R points batch vecs win w (env.readings w)).ops
      (worker R points batch vecs win w (env.readings w)).errs
      (worker R points batch vecs win w (env.readings w)).lat) ∧
    Accounts res.elapsed (Int64.ofInt batch)
      (fun w => (worker R points batch vecs win w (env.readings w)).lat) res.ops res.lat ∧
    (0 < conns → win.warmDeadline ≤ win.deadline → 0 < res.elapsed) := by
  subst hwin
  rw [run] at h
  simp only at h
  split at h
  · rename_i hfinished
    obtain rfl := Option.some.inj h
    refine ⟨fun w => worker_account hclock (hfinished w),
      Accounts.all env.order_perm fun w => worker_account hclock (hfinished w), ?_⟩
    intro hconns hwindow
    have hpast := loop_past_deadline (hfinished ⟨0, hconns⟩) (by simp [Worker.initial])
    have hstop := (hclock ⟨0, hconns⟩).deadline_lt_stop hpast
    show 0 < env.stop - (windowOf env.start duration warmup).warmDeadline
    omega
  · cases h

/-! ### The two generators -/

/-- A count of batches that fits an `int64`. -/
theorem toInt_ofNat_mul {n : ℕ} {batch : ℤ} (hbatch : 1 ≤ batch) (h : n * batch < 2 ^ 63) :
    (Int64.ofNat n * Int64.ofInt batch).toInt = n * batch := by
  have hnonneg : 0 ≤ n * batch := by positivity
  rw [← Int64.ofInt_eq_ofNat, ← Int64.ofInt_mul, Int64.toInt_ofInt_of_le (by omega) h]

/-- On a clock that never goes back, both generators sample disjoint spans of the
measured window, which add up to no more than the window (or to nothing, where there
is none), and count what they sample. -/
theorem closed_loop_accounting {τ : Type*} {S : Netkv.Rand τ} {keys : List Bytes} {op : Op τ}
    {zipf : Bool} {kvConns : ℕ} {dur warm : Int64} {kvEnv : Netkv.Env kvConns} {kvRes : Result}
    (hkv : Netkv.run S keys kvConns dur warm zipf op kvEnv = some kvRes) {kvWin : Window}
    (hkvWin : kvWin = Window.of kvEnv.start dur warm) (hkvClock : kvEnv.Monotone kvWin)
    (hvec : run R vecs conns points batch duration warmup env = some res)
    (hwin : win = windowOf env.start duration warmup) (hclock : env.Monotone win) :
    ((∀ w, Account Netkv.Reading.lap kvWin.warmDeadline kvWin.deadline kvEnv.stop
        (fun _ => true) Netkv.Reading.failed 1 (kvEnv.readings w)
        (Netkv.worker S keys zipf op kvWin w (kvEnv.readings w)).ops
        (Netkv.worker S keys zipf op kvWin w (kvEnv.readings w)).errs
        (Netkv.worker S keys zipf op kvWin w (kvEnv.readings w)).lat) ∧
      Accounts kvRes.elapsed 1
        (fun w => (Netkv.worker S keys zipf op kvWin w (kvEnv.readings w)).lat) kvRes.ops
        kvRes.lat ∧
      (0 < kvConns → kvWin.warmDeadline ≤ kvWin.deadline → 0 < kvRes.elapsed) ∧
      (kvRes.lat.length < 2 ^ 63 → kvRes.ops.toInt = kvRes.lat.length)) ∧
    (∀ w, Account Reading.lap win.warmDeadline win.deadline env.stop Reading.ok (fun r => !r.ok)
        (Int64.ofInt batch) (env.readings w)
        (worker R points batch vecs win w (env.readings w)).ops
        (worker R points batch vecs win w (env.readings w)).errs
        (worker R points batch vecs win w (env.readings w)).lat) ∧
      Accounts res.elapsed (Int64.ofInt batch)
        (fun w => (worker R points batch vecs win w (env.readings w)).lat) res.ops res.lat ∧
      (0 < conns → win.warmDeadline ≤ win.deadline → 0 < res.elapsed) ∧
      (1 ≤ batch → res.lat.length * batch < 2 ^ 63 →
        res.ops.toInt / batch = res.lat.length) := by
  obtain ⟨hkvWorkers, hkvAll, hkvElapsed⟩ := Netkv.run_accounts hkv hkvWin hkvClock
  obtain ⟨hworkers, hall, helapsed⟩ := run_accounts hvec hwin hclock
  refine ⟨⟨hkvWorkers, hkvAll, hkvElapsed, ?_⟩, hworkers, hall, helapsed, ?_⟩
  · intro hlen
    rw [hkvAll.ops, Int64.mul_one, Int64.toInt_ofNat_of_lt hlen]
  · intro hbatch hlen
    rw [hall.ops, toInt_ofNat_mul hbatch hlen]
    apply Int.mul_ediv_cancel
    omega

/-- One worker with one operation each. -/
theorem closed_loop_accounting_one_op :
    ∃ kvRes res, Netkv.run wordRand (mkKeys 1) 1 10 0 false readOp (oneOp none) = some kvRes ∧
      run wordRand [[48]] 1 5 1 2 0 twoPosts = some res ∧
      Accounts kvRes.elapsed 1 (fun w : Fin 1 => (Netkv.worker wordRand (mkKeys 1) false readOp
        (Window.of 0 10 0) w ((oneOp none).readings w)).lat) kvRes.ops kvRes.lat ∧
      Accounts res.elapsed (Int64.ofInt 1) (fun w : Fin 1 => (worker wordRand 5 1 [[48]]
        (windowOf 0 2 0) w (twoPosts.readings w)).lat) res.ops res.lat := by
  have hkv : (Netkv.run wordRand (mkKeys 1) 1 10 0 false readOp (oneOp none)).isSome = true := by
    decide
  have hvec : (run wordRand [[48]] 1 5 1 2 0 twoPosts).isSome = true := by decide
  obtain ⟨kvRes, hkv⟩ := Option.isSome_iff_exists.mp hkv
  obtain ⟨res, hvec⟩ := Option.isSome_iff_exists.mp hvec
  have haccounts := closed_loop_accounting hkv rfl
    (fun w => by
      simp only [ClosedLoop.Monotone]
      decide +revert) hvec rfl
    (fun w => by
      simp only [ClosedLoop.Monotone]
      decide +revert)
  exact ⟨kvRes, res, hkv, hvec, haccounts.1.2.1, haccounts.2.2.1⟩

/-- A run of `-warmup 10 -duration -10`: the deadline is the start. -/
def endedInWarmup : Netkv.Env 1 where
  start := 0
  readings _ := [⟨1, 1, 1, none⟩]
  order := List.finRange 1
  order_perm := List.Perm.refl _
  stop := 2

/-- A millisecond in nanoseconds. -/
def milli : ℤ := 1000000

/-- The posts from millisecond `i` on, one in each, and the reading that ends the loop. -/
def postsFrom (i : ℕ) : ℕ → List Reading
  | 0 => [⟨i * milli + 1, i * milli + 1, i * milli + 1, .failed "closed"⟩]
  | n + 1 =>
      ⟨i * milli + 1, i * milli + 1, (i + 1 : ℕ) * milli, .response 200⟩ :: postsFrom (i + 1) n

/-- One worker whose posts take a millisecond each. -/
def postAMilli (n : ℕ) : Env 1 where
  start := 0
  readings _ := postsFrom 0 n
  order := List.finRange 1
  order_perm := List.Perm.refl _
  stop := n * milli + 1

theorem drawBatch_isSome (vec : Bytes) (n : ℕ) (rng : UInt64) :
    (drawBatch wordRand 1 [vec] n rng).isSome := by
  induction n generalizing rng with
  | zero => rfl
  | succ n ih =>
      have hpoint : ∃ id vec' rng', drawPoint wordRand 1 [vec] rng = some (id, vec', rng') := by
        simp [drawPoint, wordRand, Nat.mod_one]
      obtain ⟨id, vec', rng', hpoint⟩ := hpoint
      obtain ⟨⟨rest, rng''⟩, hrest⟩ := Option.isSome_iff_exists.mp (ih rng')
      simp [drawBatch, hpoint, hrest]

theorem windowOf_seconds {s : ℕ} (hs : (1000 * s : ℕ) * milli < 2 ^ 63) :
    windowOf 0 s 0 = { warmDeadline := 0, deadline := (1000 * s : ℕ) * milli } := by
  have hnanos : (s : ℤ) * 1000000000 = (1000 * s : ℕ) * milli := by
    rw [milli]
    omega
  have hmul : (Int64.ofInt s * 1000000000).toInt = (1000 * s : ℕ) * milli := by
    rw [← hnanos] at hs ⊢
    rw [show (1000000000 : Int64) = Int64.ofInt 1000000000 from rfl, ← Int64.ofInt_mul,
      Int64.toInt_ofInt_of_le (by omega) hs]
  rw [windowOf, hmul]
  simp

/-- The clock goes on from millisecond to millisecond. -/
theorem monotone_postsFrom (i n : ℕ) {start : ℤ} (hstart : start ≤ i * milli) :
    ClosedLoop.Monotone Reading.lap start ((i + n : ℕ) * milli) ((i + n : ℕ) * milli + 1)
      (postsFrom i n) := by
  induction n generalizing i start with
  | zero =>
      have hlate : ((i + 0 : ℕ) : ℤ) * milli < i * milli + 1 := by simp
      rw [ClosedLoop.Monotone, ← List.isChain_iff_pairwise, postsFrom, clock,
        if_pos (by simp only [Reading.lap]; exact hlate)]
      refine .cons_cons ?_ (.cons_cons ?_ (.singleton _))
      · simp only [Reading.lap]
        omega
      · simp [Reading.lap]
  | succ n ih =>
      have hnext := ih (i + 1) (Int.le_refl (((i + 1 : ℕ) : ℤ) * milli))
      have hmilli : ((i + 1 : ℕ) : ℤ) * milli = i * milli + milli := by
        push_cast
        rw [Int.add_mul, Int.one_mul]
      have hpos : milli = 1000000 := rfl
      have hdeadline : ((i + 1 : ℕ) : ℤ) * milli ≤ (i + (n + 1) : ℕ) * milli := by
        apply Int.mul_le_mul_of_nonneg_right
        · omega
        · omega
      rw [Nat.add_right_comm i 1 n, Nat.add_assoc] at hnext
      rw [ClosedLoop.Monotone, ← List.isChain_iff_pairwise] at hnext ⊢
      rw [postsFrom, clock, if_neg (by simp only [Reading.lap]; omega)]
      refine .cons_cons ?_ (.cons_cons ?_ (.cons_cons ?_ hnext))
      · simp only [Reading.lap]
        omega
      · simp only [Reading.lap]
        omega
      · simp only [Reading.lap]
        omega

/-- All of the posts are measured, and none of them fails. -/
theorem length_measured_postsFrom (i n : ℕ) :
    ((measured { warmDeadline := 0, deadline := (i + n : ℕ) * milli }
      (postsFrom i n)).filter Reading.ok).length = n := by
  induction n generalizing i with
  | zero => simp [measured, postsFrom]
  | succ n ih =>
      have hpos : milli = 1000000 := rfl
      have hdeadline : ((i + 1 : ℕ) : ℤ) * milli ≤ (i + (n + 1) : ℕ) * milli := by
        apply Int.mul_le_mul_of_nonneg_right
        · omega
        · omega
      have hmilli : ((i + 1 : ℕ) : ℤ) * milli = i * milli + milli := by
        push_cast
        rw [Int.add_mul, Int.one_mul]
      have hnow : (i : ℤ) * milli + 1 ≤ (i + (n + 1) : ℕ) * milli := by omega
      have hwarm : 0 < (i : ℤ) * milli + 1 := by
        have hnonneg := Int.mul_nonneg (Int.natCast_nonneg i) (hpos ▸ by decide : 0 ≤ milli)
        omega
      have hnext := ih (i + 1)
      rw [Nat.add_right_comm i 1 n, Nat.add_assoc] at hnext
      rw [measured, postsFrom, List.takeWhile_cons_of_pos (by simpa using hnow),
        List.filter_cons_of_pos (by simpa using hwarm), List.filter_cons_of_pos (by rfl),
        List.length_cons]
      exact congrArg (· + 1) hnext

/-- Whatever the size of the batches, all of them are counted. -/
theorem run_postAMilli {s : ℕ} {batch : ℤ} (vec : Bytes) (hs : (1000 * s : ℕ) * milli < 2 ^ 63)
    (hbatch : 1 < batch) :
    ∃ res, run wordRand [vec] 1 1 batch s 0 (postAMilli (1000 * s)) = some res ∧
      res.lat.length = 1000 * s ∧ res.ops = Int64.ofNat (1000 * s) * Int64.ofInt batch := by
  have hdraw (rng : UInt64) : (drawBody wordRand 1 batch [vec] rng).isSome := by
    obtain ⟨⟨pts, rng'⟩, hpts⟩ := Option.isSome_iff_exists.mp
      (drawBatch_isSome vec batch.toNat rng)
    rw [drawBody, if_pos hbatch, hpts]
    rfl
  have hlast (i n : ℕ) : ∃ r ∈ postsFrom i n, ((i + n : ℕ) : ℤ) * milli < r.now := by
    induction n generalizing i with
    | zero => exact ⟨_, List.mem_cons_self, by simp⟩
    | succ n ih =>
        obtain ⟨r, hr, hlate⟩ := ih (i + 1)
        rw [Nat.add_right_comm i 1 n, Nat.add_assoc] at hlate
        exact ⟨r, List.mem_cons_of_mem _ hr, hlate⟩
  have hwin := windowOf_seconds hs
  have hfinished (w : Fin 1) : (worker wordRand 1 batch [vec] (windowOf 0 s 0) w
      ((postAMilli (1000 * s)).readings w)).status = .finished := by
    apply loop_finished hdraw
    obtain ⟨r, hr, hlate⟩ := hlast 0 (1000 * s)
    rw [Nat.zero_add] at hlate
    exact ⟨r, hr, by rwa [hwin]⟩
  have hrun : ∃ res, run wordRand [vec] 1 1 batch s 0 (postAMilli (1000 * s)) = some res := by
    rw [run]
    exact ⟨_, if_pos hfinished⟩
  obtain ⟨res, hres⟩ := hrun
  have hreport := run_honest hres
  have hall : Tally.all (fun w => measured (windowOf (postAMilli (1000 * s)).start s 0)
      ((postAMilli (1000 * s)).readings w)) =
      measured { warmDeadline := 0, deadline := (0 + 1000 * s : ℕ) * milli }
        (postsFrom 0 (1000 * s)) := by
    rw [Nat.zero_add, ← hwin]
    simp [Tally.all, postAMilli, List.finRange_succ]
  rw [hall] at hreport
  refine ⟨res, hres, ?_, ?_⟩
  · rw [hreport.lat.length_eq, List.length_map, length_measured_postsFrom]
  · rw [hreport.ops, List.countP_eq_length_filter, length_measured_postsFrom]

theorem monotone_postAMilli {s : ℕ} (hs : (1000 * s : ℕ) * milli < 2 ^ 63) :
    (postAMilli (1000 * s)).Monotone (windowOf 0 s 0) := by
  intro w
  have hclock := monotone_postsFrom 0 (1000 * s) (show (0 : ℤ) ≤ (0 : ℕ) * milli by simp)
  rw [Nat.zero_add] at hclock
  rw [windowOf_seconds hs]
  exact hclock

/-- A run of `-warmup 10 -duration -10` ends before its window begins. A run of
`-batch 1048576 -duration 8796093023` whose posts take a millisecond each overflows the
count. -/
theorem empty_window_and_wrapped_count :
    (∃ res, Netkv.run wordRand (mkKeys 1) 1 (-10 * 1000000000) (10 * 1000000000) false readOp
        endedInWarmup = some res ∧
      endedInWarmup.Monotone (Window.of 0 (-10 * 1000000000) (10 * 1000000000)) ∧
      ¬ res.lat.sum ≤ (1 : ℕ) * res.elapsed) ∧
    ∃ res, run wordRand [text "[0.5]"] 1 1 1048576 (8796093023 : ℕ) 0
        (postAMilli (1000 * 8796093023)) = some res ∧
      (postAMilli (1000 * 8796093023)).Monotone (windowOf 0 (8796093023 : ℕ) 0) ∧
      ¬ res.ops.toInt / 1048576 = res.lat.length := by
  constructor
  · have hrun : (Netkv.run wordRand (mkKeys 1) 1 (-10 * 1000000000) (10 * 1000000000) false readOp
        endedInWarmup).map (fun res => res.elapsed) = some (-9999999998) := by
      decide
    obtain ⟨res, hres, helapsed⟩ := Option.map_eq_some_iff.mp hrun
    have hlat : res.lat = [] := (run_reports hres).lat.eq_nil
    refine ⟨res, hres, ?_, ?_⟩
    · intro w
      simp only [ClosedLoop.Monotone]
      decide +revert
    · rw [hlat, helapsed]
      decide
  · have hs : ((1000 * 8796093023 : ℕ) : ℤ) * milli < 2 ^ 63 := by decide
    obtain ⟨res, hres, hlen, hops⟩ := run_postAMilli (text "[0.5]") hs
      (show (1 : ℤ) < 1048576 by decide)
    refine ⟨res, hres, monotone_postAMilli hs, ?_⟩
    rw [hlen, hops]
    decide

end RostamBench.Netvec
