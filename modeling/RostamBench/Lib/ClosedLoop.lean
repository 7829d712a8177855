import RostamBench.Lib.Tally
import Mathlib.Algebra.Order.BigOperators.Group.List
import Mathlib.Data.List.TakeWhile
import Mathlib.Tactic.Linarith

/-!
Closed loops under a clock.

A worker reads the clock at the top of an iteration and around the operation it
issues (`Lap`), and leaves its loop at the first reading past a deadline. On a clock
that never goes back its iterations follow one another, so the spans of its
operations are disjoint and their lengths add up to no more than the window they lie
in (`Within.sum_le`).

`Account` says what one worker has counted and sampled, and `Accounts` what comes of
it when all of them are added up.
-/

namespace ClosedLoop

/-- The clock readings of an iteration: at its top, before and after the
operation. -/
structure Lap where
  now : ℤ
  t0 : ℤ
  t1 : ℤ

def Lap.length (l : Lap) : ℤ := l.t1 - l.t0

variable {α : Type*} {lap : α → Lap} {lo hi warm deadline stop : ℤ} {rs : List α}

/-- Everything a worker reads off the clock. -/
def clock (lap : α → Lap) (deadline : ℤ) : List α → List ℤ
  | [] => []
  | r :: rs =>
      if deadline < (lap r).now then [(lap r).now]
      else (lap r).now :: (lap r).t0 :: (lap r).t1 :: clock lap deadline rs

/-- The clock of a worker does not go back, from the start of the run to its end. -/
def Monotone (lap : α → Lap) (start deadline stop : ℤ) (rs : List α) : Prop :=
  (start :: (clock lap deadline rs ++ [stop])).Pairwise (· ≤ ·)

/-- The operations lie inside `[lo, hi]`, one after the other. -/
structure Within (lap : α → Lap) (lo hi : ℤ) (rs : List α) : Prop where
  inside : ∀ r ∈ rs, lo ≤ (lap r).t0 ∧ (lap r).t0 ≤ (lap r).t1 ∧ (lap r).t1 ≤ hi
  disjoint : rs.Pairwise fun r r' => (lap r).t1 ≤ (lap r').t0

theorem Within.sublist {rs' : List α} (h : Within lap lo hi rs) (hsub : rs'.Sublist rs) :
    Within lap lo hi rs' where
  inside r hr := h.inside r (hsub.subset hr)
  disjoint := h.disjoint.sublist hsub

/-- Disjoint spans are together no longer than the window. -/
theorem Within.sum_le (h : Within lap lo hi rs) (hle : lo ≤ hi) :
    (rs.map fun r => (lap r).length).sum ≤ hi - lo := by
  induction rs generalizing lo with
  | nil => simpa using hle
  | cons r rs ih =>
      obtain ⟨hlo, hspan, hhi⟩ := h.inside r List.mem_cons_self
      obtain ⟨hfirst, hrest⟩ := List.pairwise_cons.mp h.disjoint
      -- What follows `r` lies after its end.
      have hafter : Within lap (lap r).t1 hi rs := by
        refine ⟨fun r' hr' => ?_, hrest⟩
        obtain ⟨-, hspan', hhi'⟩ := h.inside r' (List.mem_cons_of_mem _ hr')
        exact ⟨hfirst r' hr', hspan', hhi'⟩
      have hsum := ih hafter hhi
      rw [List.map_cons, List.sum_cons, Lap.length]
      linarith

/-- No window is needed to be there: an empty one has nothing in it. -/
theorem Within.sum_le_max (h : Within lap lo hi rs) :
    (rs.map fun r => (lap r).length).sum ≤ max 0 (hi - lo) := by
  cases rs with
  | nil => simp
  | cons r rs =>
      obtain ⟨hlo, hspan, hhi⟩ := h.inside r List.mem_cons_self
      exact le_max_of_le_right (h.sum_le (by omega))

/-- The iterations that begin before the deadline. -/
def laps (lap : α → Lap) (deadline : ℤ) (rs : List α) : List α :=
  rs.takeWhile fun r => decide ((lap r).now ≤ deadline)

/-- Those of them that are measured. -/
def window (lap : α → Lap) (warm deadline : ℤ) (rs : List α) : List α :=
  (laps lap deadline rs).filter fun r => decide (warm < (lap r).now)

theorem window_sublist : (window lap warm deadline rs).Sublist rs :=
  List.filter_sublist.trans (List.takeWhile_sublist _)

theorem mem_window {r : α} (h : r ∈ window lap warm deadline rs) :
    warm < (lap r).now ∧ (lap r).now ≤ deadline := by
  obtain ⟨hlap, hwarm⟩ := List.mem_filter.mp h
  have hnow := List.mem_takeWhile_imp hlap
  exact ⟨of_decide_eq_true hwarm, of_decide_eq_true hnow⟩

/-- The clock of a worker that goes on past `r`. -/
theorem Monotone.cons {start : ℤ} {r : α} (h : Monotone lap start deadline stop (r :: rs))
    (hr : (lap r).now ≤ deadline) :
    start ≤ (lap r).now ∧ (lap r).now ≤ (lap r).t0 ∧ (lap r).t0 ≤ (lap r).t1 ∧
      Monotone lap (lap r).t1 deadline stop rs := by
  rw [Monotone, clock, if_neg (not_lt.mpr hr)] at h
  obtain ⟨hstart, h⟩ := List.pairwise_cons.mp h
  obtain ⟨hnow, h⟩ := List.pairwise_cons.mp h
  obtain ⟨ht0, h⟩ := List.pairwise_cons.mp h
  exact ⟨hstart _ (by simp), hnow _ (by simp), ht0 _ (by simp), h⟩

theorem Monotone.start_le_stop {start : ℤ} (h : Monotone lap start deadline stop rs) :
    start ≤ stop :=
  (List.pairwise_cons.mp h).1 stop (by simp)

/-- On a clock that never goes back the iterations follow one another. -/
theorem Monotone.laps_within {start : ℤ} (h : Monotone lap start deadline stop rs) :
    Within lap start stop (laps lap deadline rs) ∧
      ∀ r ∈ laps lap deadline rs, (lap r).now ≤ (lap r).t0 := by
  induction rs generalizing start with
  | nil => exact ⟨⟨by simp [laps], by simp [laps]⟩, by simp [laps]⟩
  | cons r rs ih =>
      by_cases hr : (lap r).now ≤ deadline
      · obtain ⟨hstart, hnow, hspan, hrest⟩ := h.cons hr
        obtain ⟨hwithin, hbegin⟩ := ih hrest
        have hlaps : laps lap deadline (r :: rs) = r :: laps lap deadline rs := by
          simp [laps, hr]
        rw [hlaps]
        refine ⟨⟨?_, ?_⟩, ?_⟩
        · intro r' hr'
          rcases List.mem_cons.mp hr' with rfl | hr'
          · exact ⟨by omega, hspan, hrest.start_le_stop⟩
          · obtain ⟨hlo, hspan', hhi⟩ := hwithin.inside r' hr'
            exact ⟨by omega, hspan', hhi⟩
        · refine List.pairwise_cons.mpr ⟨?_, hwithin.disjoint⟩
          intro r' hr'
          exact (hwithin.inside r' hr').1
        · intro r' hr'
          rcases List.mem_cons.mp hr' with rfl | hr'
          · exact hnow
          · exact hbegin r' hr'
      · have hlaps : laps lap deadline (r :: rs) = [] := by
          simp [laps, hr]
        rw [hlaps]
        exact ⟨⟨by simp, by simp⟩, by simp⟩

/-- What is measured lies between the warmup and the end of the run. -/
theorem Monotone.window_within {start : ℤ} (h : Monotone lap start deadline stop rs) :
    Within lap warm stop (window lap warm deadline rs) := by
  obtain ⟨hwithin, hbegin⟩ := h.laps_within
  have hsub : (window lap warm deadline rs).Sublist (laps lap deadline rs) :=
    List.filter_sublist
  refine ⟨?_, (hwithin.sublist hsub).disjoint⟩
  intro r hr
  obtain ⟨hlo, hspan, hhi⟩ := hwithin.inside r (hsub.subset hr)
  have hwarm := (mem_window hr).1
  have hnow := hbegin r (hsub.subset hr)
  exact ⟨by omega, hspan, hhi⟩

/-- The reading that ends a loop comes before the end of the run. -/
theorem Monotone.deadline_lt_stop {start : ℤ} (h : Monotone lap start deadline stop rs)
    (hend : ∃ r ∈ rs, deadline < (lap r).now) : deadline < stop := by
  induction rs generalizing start with
  | nil => simp at hend
  | cons r rs ih =>
      by_cases hr : (lap r).now ≤ deadline
      · refine ih (h.cons hr).2.2.2 ?_
        obtain ⟨r', hr', hlate⟩ := hend
        rcases List.mem_cons.mp hr' with rfl | hr'
        · omega
        · exact ⟨r', hr', hlate⟩
      · rw [Monotone, clock, if_pos (not_le.mp hr)] at h
        have hstop := (List.pairwise_cons.mp (List.pairwise_cons.mp h).2).1 stop (by simp)
        omega

/-! ### Accounts -/

/-- What a worker reports of its readings: there is a list of iterations, each of
them begun in the measured window and all of them disjoint, of which it counts those
that are `counted`, samples their latencies, and counts those that `failed` as
errors. -/
def Account (lap : α → Lap) (warm deadline stop : ℤ) (counted failed : α → Bool) (unit : Int64)
    (readings : List α) (ops errs : Int64) (lat : List ℤ) : Prop :=
  ∃ ms : List α, ms.Sublist readings ∧
    (∀ r ∈ ms, warm < (lap r).now ∧ (lap r).now ≤ deadline) ∧ Within lap warm stop ms ∧
    ops = Int64.ofNat (ms.countP counted) * unit ∧ errs = Int64.ofNat (ms.countP failed) ∧
    lat = (ms.filter counted).map fun r => (lap r).length

theorem Account.of_window {start : ℤ} {counted failed : α → Bool} {unit ops errs : Int64}
    {lat : List ℤ} (h : Monotone lap start deadline stop rs)
    (hops : ops = Int64.ofNat ((window lap warm deadline rs).countP counted) * unit)
    (herrs : errs = Int64.ofNat ((window lap warm deadline rs).countP failed))
    (hlat : lat = ((window lap warm deadline rs).filter counted).map fun r => (lap r).length) :
    Account lap warm deadline stop counted failed unit rs ops errs lat :=
  ⟨_, window_sublist, fun _ hr => mem_window hr, h.window_within, hops, herrs, hlat⟩

theorem Account.sum_le {counted failed : α → Bool} {unit ops errs : Int64} {lat : List ℤ}
    (h : Account lap warm deadline stop counted failed unit rs ops errs lat) :
    lat.sum ≤ max 0 (stop - warm) := by
  obtain ⟨ms, -, -, hwithin, -, -, rfl⟩ := h
  exact (hwithin.sublist List.filter_sublist).sum_le_max

theorem Account.ops_eq {counted failed : α → Bool} {unit ops errs : Int64} {lat : List ℤ}
    (h : Account lap warm deadline stop counted failed unit rs ops errs lat) :
    ops = Int64.ofNat lat.length * unit := by
  obtain ⟨ms, -, -, -, hops, -, rfl⟩ := h
  rw [hops, List.length_map, List.countP_eq_length_filter]

variable {n : ℕ}

/-- What comes of the workers' accounts `ops` and `lat` in the end. -/
structure Accounts (elapsed : ℤ) (unit : Int64) (lat : Fin n → List ℤ) (ops : Int64)
    (merged : List ℤ) : Prop where
  worker_sum : ∀ w, (lat w).sum ≤ max 0 elapsed
  total_sum : merged.sum ≤ n * max 0 elapsed
  sorted : merged.Pairwise (· ≤ ·)
  perm : merged.Perm ((List.finRange n).flatMap lat)
  ops : ops = Int64.ofNat merged.length * unit

theorem sum_flatMap_le {lat : Fin n → List ℤ} {b : ℤ} (h : ∀ w, (lat w).sum ≤ b) :
    ((List.finRange n).flatMap lat).sum ≤ n * b := by
  have hmap (ws : List (Fin n)) : (ws.flatMap lat).sum ≤ ws.length * b := by
    induction ws with
    | nil => simp
    | cons w ws ih =>
        rw [List.flatMap_cons, List.sum_append, List.length_cons]
        have hw := h w
        push_cast
        linarith
  simpa using hmap (List.finRange n)

/-- The accounts of the single workers make the account of all. -/
theorem Accounts.all {counted failed : α → Bool} {unit : Int64} {readings : Fin n → List α}
    {ops errs : Fin n → Int64} {lat : Fin n → List ℤ} {order : List (Fin n)}
    (horder : order.Perm (List.finRange n))
    (h : ∀ w, Account lap warm deadline stop counted failed unit (readings w) (ops w) (errs w)
      (lat w)) :
    Accounts (stop - warm) unit lat (Tally.addAll order ops) (Tally.merged lat) where
  worker_sum w := (h w).sum_le
  total_sum := by
    rw [(Tally.merged_perm lat).sum_eq]
    exact sum_flatMap_le fun w => (h w).sum_le
  sorted := Tally.merged_sorted lat
  perm := Tally.merged_perm lat
  ops := by
    have hlen : (order.map fun w => (lat w).length).sum = (Tally.merged lat).length := by
      rw [(horder.map _).sum_eq, (Tally.merged_perm lat).length_eq, List.length_flatMap]
    rw [Tally.addAll_eq fun w => (h w).ops_eq, hlen]

end ClosedLoop
