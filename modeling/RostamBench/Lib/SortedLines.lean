import Mathlib.Data.List.Dedup
import Mathlib.Data.List.Sort

/-!
`sort -u` and `comm -13` over any collating order.

`comm` goes through two files side by side and never looks back, so what it prints
is the difference of the two files when both are sorted (`mem_comm13`).
-/

namespace SortedLines

/-- A collating order in which only equal lines tie. -/
structure Collation (α : Type*) where
  le : α → α → Bool
  trans : ∀ a b c, le a b = true → le b c = true → le a c = true
  total : ∀ a b, (le a b || le b a) = true
  antisymm : ∀ a b, le a b = true → le b a = true → a = b

variable {α : Type*} [DecidableEq α] (o : Collation α)

/-- `sort -u`. -/
def sortU (lines : List α) : List α := lines.dedup.mergeSort o.le

/-- `comm -13`: the lines of the second file that the first does not have. -/
def comm13 : List α → List α → List α
  | _, [] => []
  | [], ys => ys
  | x :: xs, y :: ys =>
      if x = y then comm13 xs ys
      else if o.le x y then comm13 xs (y :: ys)
      else y :: comm13 (x :: xs) ys
termination_by xs ys => xs.length + ys.length

omit [DecidableEq α] in
/-- Sorted, with no line twice. -/
def Collation.Sorted (lines : List α) : Prop :=
  lines.Pairwise fun a b => o.le a b = true ∧ a ≠ b

theorem mem_sortU {lines : List α} {x : α} : x ∈ sortU o lines ↔ x ∈ lines := by
  rw [sortU, List.mem_mergeSort, List.mem_dedup]

theorem sorted_sortU (lines : List α) : o.Sorted (sortU o lines) := by
  have hle : (sortU o lines).Pairwise fun a b => o.le a b = true :=
    List.pairwise_mergeSort o.trans o.total _
  have hnodup : (sortU o lines).Nodup :=
    (List.mergeSort_perm _ _).nodup_iff.mpr (List.nodup_dedup lines)
  exact hle.and hnodup

/-- Only what lines there are matters. -/
theorem sortU_eq_iff (xs ys : List α) : sortU o xs = sortU o ys ↔ ∀ x, x ∈ xs ↔ x ∈ ys := by
  constructor
  · intro h x
    rw [← mem_sortU o, h, mem_sortU]
  · intro h
    have hperm : (sortU o xs).Perm (sortU o ys) := by
      rw [List.perm_ext_iff_of_nodup ((sorted_sortU o xs).imp And.right)
        ((sorted_sortU o ys).imp And.right)]
      intro x
      rw [mem_sortU, mem_sortU, h]
    refine hperm.eq_of_pairwise ?_ (sorted_sortU o xs) (sorted_sortU o ys)
    intro a b _ _ hab hba
    exact o.antisymm a b hab.1 hba.1

variable {o} in
/-- Of two sorted files, the difference. -/
theorem comm13_eq_filter {xs ys : List α} (hxs : o.Sorted xs) (hys : o.Sorted ys) :
    comm13 o xs ys = ys.filter (· ∉ xs) := by
  fun_induction comm13 o xs ys with
  | case1 xs => rfl
  | case2 ys hne => simp
  | case3 xs y ys ih =>
      obtain ⟨-, hxs⟩ := List.pairwise_cons.mp hxs
      obtain ⟨hy, hys⟩ := List.pairwise_cons.mp hys
      rw [ih hxs hys, List.filter_cons_of_neg (by simp)]
      refine List.filter_congr fun z hz => ?_
      have hne : z ≠ y := (hy z hz).2.symm
      simp [hne]
  | case4 x xs y ys hne hle ih =>
      -- The line of the first file comes too early to be met again.
      obtain ⟨hx, hxs⟩ := List.pairwise_cons.mp hxs
      rw [ih hxs hys]
      refine List.filter_congr fun z hz => ?_
      have hzx : z ≠ x := by
        rintro rfl
        rcases List.mem_cons.mp hz with rfl | hz
        · exact hne rfl
        · exact hne (o.antisymm _ _ hle ((List.pairwise_cons.mp hys).1 z hz).1)
      simp [hzx]
  | case5 x xs y ys hne hle ih =>
      obtain ⟨hx, -⟩ := List.pairwise_cons.mp hxs
      have hy : y ∉ x :: xs := by
        intro hmem
        rcases List.mem_cons.mp hmem with rfl | hmem
        · exact hne rfl
        · exact hle (hx y hmem).1
      rw [ih hxs (List.pairwise_cons.mp hys).2, List.filter_cons_of_pos (by simpa using hy)]

variable {o} in
theorem mem_comm13 {xs ys : List α} (hxs : o.Sorted xs) (hys : o.Sorted ys) {z : α} :
    z ∈ comm13 o xs ys ↔ z ∈ ys ∧ z ∉ xs := by
  rw [comm13_eq_filter hxs hys]
  simp

end SortedLines
