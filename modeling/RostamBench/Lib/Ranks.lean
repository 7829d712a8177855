import Mathlib.Algebra.Order.Field.Basic
import Mathlib.Data.Multiset.Sort

/-!
Order statistics of finite samples.

A sorted list is read by rank: the entries strictly below the one at rank `i` stand
before it, and those up to rank `i` are at most as large. So the entry at rank `i` is
a quantile for every bound between `i` and `i + 1` (`isQuantile_getElem`).

The median is that of a multiset. It is read off any list that holds the sample in
order (`median_of_sorted`), however the list has come about.
-/

namespace Ranks

variable {α : Type*} [LinearOrder α] {l : List α} {i j : ℕ}

/-! ### Ranks in a sorted list -/

theorem le_of_mem_drop (h : l.Pairwise (· ≤ ·)) (hi : i < l.length) {x : α}
    (hx : x ∈ l.drop i) : l[i] ≤ x := by
  have hsorted := h.sublist (List.drop_sublist i l)
  rw [List.drop_eq_getElem_cons hi] at hx hsorted
  rcases List.mem_cons.mp hx with rfl | hx
  · exact le_refl _
  · exact (List.pairwise_cons.mp hsorted).1 x hx

theorem le_of_mem_take (h : l.Pairwise (· ≤ ·)) (hi : i < l.length) {x : α}
    (hx : x ∈ l.take (i + 1)) : x ≤ l[i] := by
  obtain ⟨j, hj, rfl⟩ := List.mem_take_iff_getElem.mp hx
  rcases Nat.lt_or_eq_of_le (show j ≤ i by omega) with hlt | rfl
  · exact List.pairwise_iff_getElem.mp h j i (by omega) hi hlt
  · exact le_refl _

theorem getElem_le_getElem (h : l.Pairwise (· ≤ ·)) (hij : i ≤ j) (hj : j < l.length) :
    l[i] ≤ l[j] := by
  rcases Nat.lt_or_eq_of_le hij with hlt | rfl
  · exact List.pairwise_iff_getElem.mp h i j (by omega) hj hlt
  · exact le_refl _

/-- What is strictly smaller than an entry stands before it. -/
theorem countP_lt_getElem_le (h : l.Pairwise (· ≤ ·)) (hi : i < l.length) :
    l.countP (fun x => decide (x < l[i])) ≤ i := by
  have hafter : (l.drop i).countP (fun x => decide (x < l[i])) = 0 := by
    rw [List.countP_eq_zero]
    intro x hx
    simpa using le_of_mem_drop h hi hx
  calc
    l.countP (fun x => decide (x < l[i]))
        = (l.take i ++ l.drop i).countP (fun x => decide (x < l[i])) := by
      rw [List.take_append_drop]
    _ = (l.take i).countP (fun x => decide (x < l[i])) := by
      rw [List.countP_append, hafter, Nat.add_zero]
    _ ≤ (l.take i).length := List.countP_le_length
    _ ≤ i := List.length_take_le i l

/-- What stands before an entry is not larger. -/
theorem lt_countP_le_getElem (h : l.Pairwise (· ≤ ·)) (hi : i < l.length) :
    i < l.countP (fun x => decide (x ≤ l[i])) := by
  have hbefore : (l.take (i + 1)).countP (fun x => decide (x ≤ l[i])) = i + 1 := by
    have hall : (l.take (i + 1)).countP (fun x => decide (x ≤ l[i])) = (l.take (i + 1)).length := by
      rw [List.countP_eq_length]
      intro x hx
      simpa using le_of_mem_take h hi hx
    rw [hall, List.length_take_of_le hi]
  calc
    i < (l.take (i + 1)).countP (fun x => decide (x ≤ l[i])) := by
      rw [hbefore]
      exact Nat.lt_succ_self i
    _ ≤ l.countP (fun x => decide (x ≤ l[i])) := (List.take_sublist _ l).countP_le

/-- What stands from an entry on is not smaller. -/
theorem length_le_add_countP_ge (h : l.Pairwise (· ≤ ·)) (hi : i < l.length) :
    l.length ≤ i + l.countP (fun x => decide (l[i] ≤ x)) := by
  have hafter : (l.drop i).countP (fun x => decide (l[i] ≤ x)) = l.length - i := by
    rw [← List.length_drop, List.countP_eq_length]
    intro x hx
    simpa using le_of_mem_drop h hi hx
  have hle := (List.drop_sublist i l).countP_le (p := fun x => decide (l[i] ≤ x))
  omega

/-- The first of equal entries has no more entries from it on than there are. -/
theorem exists_add_countP_ge_le (h : l.Pairwise (· ≤ ·)) {x : α} (hx : x ∈ l) :
    ∃ i, l[i]? = some x ∧ i + l.countP (fun y => decide (x ≤ y)) ≤ l.length := by
  obtain ⟨before, after, rfl, hfirst⟩ := List.eq_append_cons_of_mem hx
  refine ⟨before.length, by simp, ?_⟩
  have hnone : before.countP (fun y => decide (x ≤ y)) = 0 := by
    rw [List.countP_eq_zero]
    intro y hy
    have hle : y ≤ x := (List.pairwise_append.mp h).2.2 y hy x List.mem_cons_self
    have hlt : y < x := lt_of_le_of_ne hle (ne_of_mem_of_not_mem hy hfirst)
    simpa using hlt
  have hrest := List.countP_le_length (p := fun y => decide (x ≤ y)) (l := x :: after)
  rw [List.countP_append, hnone, List.length_append]
  omega

variable {K : Type*} [Field K] [LinearOrder K]

/-- `v` is an entry with at most `x` entries strictly below it and at least `x` entries
up to it. -/
structure IsQuantile (l : List α) (x : K) (v : α) : Prop where
  mem : v ∈ l
  below : (l.countP (fun y => decide (y < v)) : K) ≤ x
  upTo : x ≤ (l.countP (fun y => decide (y ≤ v)) : K)

theorem isQuantile_getElem [IsStrictOrderedRing K] (h : l.Pairwise (· ≤ ·)) (hi : i < l.length)
    {x : K} (hlo : (i : K) ≤ x) (hhi : x ≤ i + 1) : IsQuantile l x l[i] where
  mem := List.getElem_mem hi
  below := by
    have hcount : (l.countP (fun y => decide (y < l[i])) : K) ≤ i := by
      exact_mod_cast countP_lt_getElem_le h hi
    exact hcount.trans hlo
  upTo := by
    have hcount : ((i + 1 : ℕ) : K) ≤ l.countP (fun y => decide (y ≤ l[i])) := by
      exact_mod_cast lt_countP_le_getElem h hi
    push_cast at hcount
    exact hhi.trans hcount

/-! ### The median -/

/-- The middle of a list, or the mean of the two middle entries. -/
def middle (l : List K) : K :=
  if l.length % 2 = 1 then l.getD (l.length / 2) 0
  else (l.getD (l.length / 2 - 1) 0 + l.getD (l.length / 2) 0) / 2

/-- The median of a sample. -/
def median (s : Multiset K) : K := middle (s.sort (· ≤ ·))

theorem median_of_sorted {l : List K} {s : Multiset K} (hsorted : l.Pairwise (· ≤ ·))
    (hs : (l : Multiset K) = s) : median s = middle l := by
  subst hs
  rw [median, Multiset.coe_sort]
  congr 1
  exact List.mergeSort_eq_self _ hsorted

end Ranks
