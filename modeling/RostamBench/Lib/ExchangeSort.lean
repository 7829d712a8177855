import Mathlib.Data.List.Nodup
import Mathlib.Data.List.Perm.Basic
import Mathlib.Logic.Equiv.Basic
import Mathlib.Order.Nat
import Mathlib.Order.Lattice

/-!
Exchange sort on the entries `1`, …, `n` of an array.

For every `i` in turn the entry at `i` is compared with all that follow it and
exchanged with each smaller one. An array is a function, so that there are entries
beyond `n`, which nothing touches or looks at.

The comparison of the program need not be an order everywhere. It is enough that it is
one, by way of a `key`, among the entries that satisfy `P` (`Compares`), and that all
entries up to `n` do.
-/

namespace ExchangeSort

variable {α β : Type*}

/-- `if (a[j]<a[i]) { t=a[i];a[i]=a[j];a[j]=t }`. -/
def exchange (less : α → α → Bool) (i : ℕ) (a : ℕ → α) (j : ℕ) : ℕ → α :=
  if less (a j) (a i) then Function.update (Function.update a i (a j)) j (a i) else a

/-- The loop over the entries that follow `i`. -/
def inner (less : α → α → Bool) (n : ℕ) (a : ℕ → α) (i : ℕ) : ℕ → α :=
  (List.range' (i + 1) (n - i)).foldl (exchange less i) a

def sort (less : α → α → Bool) (n : ℕ) (a : ℕ → α) : ℕ → α :=
  (List.range' 1 n).foldl (inner less n) a

/-- The entries `1`, …, `n`. -/
def segment (n : ℕ) (a : ℕ → α) : List α := (List.range' 1 n).map a

/-- Among the values that satisfy `P`, `less` compares the keys. -/
def Compares [LinearOrder β] (less : α → α → Bool) (P : α → Prop) (key : α → β) : Prop :=
  ∀ x y, P x → P y → (less x y = true ↔ key x < key y)

variable {less : α → α → Bool} {n i j k : ℕ} {a a₀ : ℕ → α}

theorem mem_segment (hk : 1 ≤ k) (hkn : k ≤ n) : a k ∈ segment n a :=
  List.mem_map_of_mem (List.mem_range'_1.mpr ⟨hk, by omega⟩)

/-- Two entries change places, or nothing does. -/
theorem exchange_cases (less : α → α → Bool) (i j : ℕ) (a : ℕ → α) :
    exchange less i a j = a ∘ Equiv.swap i j ∧ less (a j) (a i) = true ∨
      exchange less i a j = a ∧ less (a j) (a i) = false := by
  rw [exchange]
  split
  · rename_i hless
    refine Or.inl ⟨?_, hless⟩
    rw [Equiv.swap_comm, Equiv.comp_swap_eq_update]
  · rename_i hless
    exact Or.inr ⟨rfl, by simpa using hless⟩

theorem le_swap {lo : ℕ} (hi : lo ≤ i) (hj : lo ≤ j) (hk : lo ≤ k) : lo ≤ Equiv.swap i j k := by
  rw [Equiv.swap_apply_def]
  split
  · exact hj
  · split
    · exact hi
    · exact hk

theorem swap_le (hi : i ≤ n) (hj : j ≤ n) (hk : k ≤ n) : Equiv.swap i j k ≤ n := by
  rw [Equiv.swap_apply_def]
  split
  · exact hj
  · split
    · exact hi
    · exact hk

theorem segment_swap_perm (hi : 1 ≤ i) (hin : i ≤ n) (hj : 1 ≤ j) (hjn : j ≤ n) (a : ℕ → α) :
    (segment n (a ∘ Equiv.swap i j)).Perm (segment n a) := by
  have hswap {k : ℕ} (hk : k ∈ List.range' 1 n) : Equiv.swap i j k ∈ List.range' 1 n := by
    rw [List.mem_range'_1] at hk ⊢
    have hle := swap_le hin hjn (show k ≤ n by omega)
    exact ⟨le_swap hi hj hk.1, by omega⟩
  have hnodup : (List.range' 1 n).Nodup := List.nodup_range'
  have hindices : ((List.range' 1 n).map (Equiv.swap i j)).Perm (List.range' 1 n) := by
    rw [List.perm_ext_iff_of_nodup (hnodup.map (Equiv.swap i j).injective) hnodup]
    intro k
    rw [List.mem_map]
    constructor
    · rintro ⟨m, hm, rfl⟩
      exact hswap hm
    · intro hk
      exact ⟨Equiv.swap i j k, hswap hk, Equiv.swap_apply_self i j k⟩
  have hmap := hindices.map a
  rwa [List.map_map] at hmap

/-! ### The loops -/

section Sorted

variable [LinearOrder β] {P : α → Prop} {key : α → β} {m : ℕ}

/-- The entries before `i` are in order and not above any that follows, and the entry
at `i` is not above those that follow up to `m`. -/
structure Inv (key : α → β) (n : ℕ) (a₀ : ℕ → α) (i m : ℕ) (a : ℕ → α) : Prop where
  perm : (segment n a).Perm (segment n a₀)
  before : ∀ p q, 1 ≤ p → p < i → p < q → q ≤ n → key (a p) ≤ key (a q)
  least : ∀ q, i < q → q ≤ m → key (a i) ≤ key (a q)

theorem Inv.all (hP : ∀ x ∈ segment n a₀, P x) (h : Inv key n a₀ i m a) (hk : 1 ≤ k)
    (hkn : k ≤ n) : P (a k) :=
  hP _ (h.perm.mem_iff.mp (mem_segment hk hkn))

theorem Inv.exchange (hless : Compares less P key) (hP : ∀ x ∈ segment n a₀, P x)
    (h : Inv key n a₀ i m a) (hi : 1 ≤ i) (him : i ≤ m) (hm : m < n) :
    Inv key n a₀ i (m + 1) (exchange less i a (m + 1)) := by
  have hcompare := hless (a (m + 1)) (a i) (h.all hP (by omega) hm) (h.all hP hi (by omega))
  rcases exchange_cases less i (m + 1) a with ⟨heq, htrue⟩ | ⟨heq, hfalse⟩
  · have hlt : key (a (m + 1)) < key (a i) := hcompare.mp htrue
    rw [heq]
    refine ⟨?_, ?_, ?_⟩
    · exact (segment_swap_perm hi (by omega) (by omega) hm a).trans h.perm
    · intro p q hp hpi hpq hq
      have hp' : Equiv.swap i (m + 1) p = p :=
        Equiv.swap_apply_of_ne_of_ne (by omega) (by omega)
      have hq' : p < Equiv.swap i (m + 1) q := le_swap (by omega) (by omega) (by omega)
      rw [Function.comp_apply, Function.comp_apply, hp']
      exact h.before p _ hp hpi hq' (swap_le (by omega) (by omega) hq)
    · intro q hiq hqm
      rw [Function.comp_apply, Function.comp_apply, Equiv.swap_apply_left]
      rcases Nat.lt_or_eq_of_le hqm with hqm | rfl
      · rw [Equiv.swap_apply_of_ne_of_ne (by omega) (by omega)]
        exact le_trans (le_of_lt hlt) (h.least q hiq (by omega))
      · rw [Equiv.swap_apply_right]
        exact le_of_lt hlt
  · have hle : key (a i) ≤ key (a (m + 1)) := by
      by_contra hlt
      rw [hcompare.mpr (not_le.mp hlt)] at hfalse
      cases hfalse
    rw [heq]
    refine ⟨h.perm, h.before, ?_⟩
    intro q hiq hqm
    rcases Nat.lt_or_eq_of_le hqm with hqm | rfl
    · exact h.least q hiq (by omega)
    · exact hle

theorem Inv.foldl_exchange (hless : Compares less P key) (hP : ∀ x ∈ segment n a₀, P x)
    (h : Inv key n a₀ i i a) (hi : 1 ≤ i) (hin : i + k ≤ n) :
    Inv key n a₀ i (i + k) ((List.range' (i + 1) k).foldl (ExchangeSort.exchange less i) a) := by
  induction k with
  | zero => exact h
  | succ k ih =>
      rw [List.range'_concat, List.foldl_append, Nat.one_mul]
      have hindex : i + 1 + k = i + k + 1 := by omega
      rw [hindex]
      have hlt : i + k < n := by omega
      exact (ih (by omega)).exchange hless hP hi (Nat.le_add_right i k) hlt

/-- One turn of the outer loop puts the entry at `i` in its place. -/
theorem Inv.inner (hless : Compares less P key) (hP : ∀ x ∈ segment n a₀, P x)
    (h : Inv key n a₀ i i a) (hi : 1 ≤ i) (hin : i ≤ n) :
    Inv key n a₀ (i + 1) (i + 1) (inner less n a i) := by
  have hloop := h.foldl_exchange (k := n - i) hless hP hi (by omega)
  rw [Nat.add_sub_cancel' hin] at hloop
  refine ⟨hloop.perm, ?_, ?_⟩
  · intro p q hp hpi hpq hq
    rcases Nat.lt_or_eq_of_le (Nat.le_of_lt_succ hpi) with hlt | rfl
    · exact hloop.before p q hp hlt hpq hq
    · exact hloop.least q hpq hq
  · intro q hiq hqm
    omega

theorem inv_foldl_inner (hless : Compares less P key) (hP : ∀ x ∈ segment n a, P x) (hk : k ≤ n) :
    Inv key n a (k + 1) (k + 1) ((List.range' 1 k).foldl (inner less n) a) := by
  induction k with
  | zero =>
      refine ⟨List.Perm.refl _, ?_, ?_⟩
      · intro p q hp hpi
        omega
      · intro q hiq hqm
        omega
  | succ k ih =>
      rw [List.range'_concat, List.foldl_append, Nat.one_mul, Nat.add_comm 1 k]
      exact (ih (by omega)).inner hless hP (by omega) hk

theorem segment_sort_perm (hless : Compares less P key) (hP : ∀ x ∈ segment n a, P x) :
    (segment n (sort less n a)).Perm (segment n a) :=
  (inv_foldl_inner hless hP (le_refl n)).perm

theorem segment_sort_sorted (hless : Compares less P key) (hP : ∀ x ∈ segment n a, P x) :
    ((segment n (sort less n a)).map key).Pairwise (· ≤ ·) := by
  have hinv := inv_foldl_inner hless hP (le_refl n)
  rw [segment, List.map_map, List.pairwise_map]
  refine List.pairwise_iff_getElem.mpr ?_
  intro p q hp hq hpq
  rw [List.getElem_range', List.getElem_range']
  rw [List.length_range'] at hp hq
  exact hinv.before _ _ (by omega) (by omega) (by omega) (by omega)

end Sorted

end ExchangeSort
