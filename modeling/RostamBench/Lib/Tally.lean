import Mathlib.Data.List.FinRange
import Mathlib.Data.List.Sort
import Mathlib.Algebra.BigOperators.Group.List.Basic
import Mathlib.Algebra.GroupWithZero.Nat

/-!
Counters and samples that several workers keep on their own and add up when they
are done.

A counter is a 64-bit integer, so sums are taken modulo `2 ^ 64`, and the order in
which the workers add to it does not matter (`addAll_eq`). The samples are put one
after the other and sorted (`merged`).

`Reports` says what a report makes of a list of measurements: which of them it
counts and samples, and which it counts as errors. A report is an honest one when
it counts and samples the successes and the errors are the rest (`Honest`).
-/

namespace Tally

variable {ι α : Type*}

/-- Every worker of `order` adds its own count. -/
def addAll (order : List ι) (count : ι → Int64) : Int64 :=
  order.foldl (fun total i => total + count i) 0

/-- The total of counts that are multiples of one unit. -/
theorem addAll_eq {count : ι → Int64} {n : ι → ℕ} {unit : Int64}
    (h : ∀ i, count i = Int64.ofNat (n i) * unit) (order : List ι) :
    addAll order count = Int64.ofNat (order.map n).sum * unit := by
  have hfold (total : Int64) : order.foldl (fun total i => total + count i) total =
      total + Int64.ofNat (order.map n).sum * unit := by
    induction order generalizing total with
    | nil => simp
    | cons i order ih =>
        rw [List.foldl_cons, ih, h i, List.map_cons, List.sum_cons, Int64.ofNat_add,
          Int64.add_mul, Int64.add_assoc]
  simpa [addAll] using hfold 0

variable {n : ℕ}

/-- The samples of all workers, in order of size. -/
def merged (lat : Fin n → List ℤ) : List ℤ :=
  ((List.finRange n).flatMap lat).mergeSort fun a b => a ≤ b

theorem merged_perm (lat : Fin n → List ℤ) : (merged lat).Perm ((List.finRange n).flatMap lat) :=
  List.mergeSort_perm _ _

theorem merged_sorted (lat : Fin n → List ℤ) : (merged lat).Pairwise (· ≤ ·) := by
  have hsorted := List.pairwise_mergeSort' (· ≤ ·) ((List.finRange n).flatMap lat)
  exact hsorted

/-- `ops` counts those of `ms` that are `counted`, each for `unit`, and the sample
is of them; `errs` counts those that are `failed`. -/
structure Reports (ms : List α) (counted failed : α → Bool) (latency : α → ℤ) (unit : Int64)
    (ops errs : Int64) (lat : List ℤ) : Prop where
  ops : ops = Int64.ofNat (ms.countP counted) * unit
  errs : errs = Int64.ofNat (ms.countP failed)
  lat : lat.Perm ((ms.filter counted).map latency)

/-- The successes are counted and sampled, the others are errors. -/
def Honest (ms : List α) (ok : α → Bool) (latency : α → ℤ) (unit : Int64) (ops errs : Int64)
    (lat : List ℤ) : Prop :=
  Reports ms ok (fun m => !ok m) latency unit ops errs lat

/-- The measurements of all workers together. -/
def all (ms : Fin n → List α) : List α := (List.finRange n).flatMap ms

/-- The workers add up what each of them has counted, in any order. -/
theorem addAll_countP {ms : Fin n → List α} {p : α → Bool} {count : Fin n → Int64} {unit : Int64}
    (h : ∀ w, count w = Int64.ofNat ((ms w).countP p) * unit) {order : List (Fin n)}
    (horder : order.Perm (List.finRange n)) :
    addAll order count = Int64.ofNat ((all ms).countP p) * unit := by
  have hsum : (order.map fun w => (ms w).countP p).sum = (all ms).countP p := by
    rw [(horder.map _).sum_eq, all, List.countP_flatMap]
    rfl
  rw [addAll_eq h, hsum]

/-- Reports of the single workers make a report of all. -/
theorem Reports.all {ms : Fin n → List α} {counted failed : α → Bool} {latency : α → ℤ}
    {unit : Int64} {ops errs : Fin n → Int64} {lat : Fin n → List ℤ} {order : List (Fin n)}
    (horder : order.Perm (List.finRange n))
    (h : ∀ w, Reports (ms w) counted failed latency unit (ops w) (errs w) (lat w)) :
    Reports (all ms) counted failed latency unit (addAll order ops) (addAll order errs)
      (merged lat) where
  ops := addAll_countP (fun w => (h w).ops) horder
  errs := by
    have hone (w : Fin n) : errs w = Int64.ofNat ((ms w).countP failed) * 1 := by
      rw [(h w).errs, Int64.mul_one]
    rw [addAll_countP hone horder, Int64.mul_one]
  lat := by
    refine (merged_perm lat).trans ?_
    rw [Tally.all, List.filter_flatMap, List.map_flatMap]
    exact List.Perm.flatMap_left _ fun w _ => (h w).lat

/-- A report that counts everything is honest exactly when nothing failed. -/
theorem Reports.honest_iff {ms : List α} {failed : α → Bool} {latency : α → ℤ} {unit : Int64}
    {ops errs : Int64} {lat : List ℤ}
    (h : Reports ms (fun _ => true) failed latency unit ops errs lat) :
    Honest ms (fun m => !failed m) latency unit ops errs lat ↔ ∀ m ∈ ms, failed m = false := by
  constructor
  · intro hhonest
    -- The sample is as long as `ms`, so the successes are all of `ms`.
    have hlen : (ms.filter fun m => !failed m).length = ms.length := by
      have hsample := hhonest.lat.length_eq.symm.trans h.lat.length_eq
      simpa using hsample
    have hall := List.filter_eq_self.mp (List.filter_sublist.eq_of_length hlen)
    intro m hm
    simpa using hall m hm
  · intro hnone
    have hall : (ms.filter fun m => !failed m) = ms :=
      List.filter_eq_self.mpr fun m hm => by simp [hnone m hm]
    have hcount : ms.countP (fun m => !failed m) = ms.length := by
      rw [List.countP_eq_length_filter, hall]
    refine ⟨?_, ?_, ?_⟩
    · rw [hcount, h.ops]
      simp
    · simpa using h.errs
    · rw [hall]
      simpa using h.lat

end Tally
