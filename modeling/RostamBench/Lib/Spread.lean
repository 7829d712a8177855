import Mathlib.Algebra.Order.Group.Basic

/-!
Positions that are pushed apart.

`spread gap s` goes through the positions `s 0`, `s 1`, … and moves each one up as far
as it takes to be `gap` above the one before. The positions are elements of an ordered
group.

A position ends where some position up to it has pushed it, and no position up to it
pushes it further: `spread gap s k` is the largest of `s j + (k - j) • gap`
(`add_nsmul_le_spread`, `exists_spread_eq`).
-/

namespace Spread

variable {α : Type*} [AddCommGroup α] [LinearOrder α] {gap : α} {s : ℕ → α} {i j k n : ℕ}

def spread (gap : α) (s : ℕ → α) : ℕ → α
  | 0 => s 0
  | k + 1 => max (s (k + 1)) (spread gap s k + gap)

theorem le_spread (k : ℕ) : s k ≤ spread gap s k := by
  cases k with
  | zero => exact le_refl _
  | succ k => exact le_max_left _ _

theorem spread_add_le_succ (k : ℕ) : spread gap s k + gap ≤ spread gap s (k + 1) :=
  le_max_right _ _

/-- Positions that are apart already stay where they are. -/
theorem spread_of_apart (h : ∀ k < n, s k + gap ≤ s (k + 1)) (hk : k ≤ n) :
    spread gap s k = s k := by
  induction k with
  | zero => rfl
  | succ k ih =>
      rw [spread, ih (by omega)]
      exact max_eq_left (h k hk)

variable [IsOrderedAddMonoid α]

theorem spread_mono (hgap : 0 ≤ gap) : Monotone (spread gap s) := by
  apply monotone_nat_of_le_succ
  intro k
  calc
    spread gap s k ≤ spread gap s k + gap := le_add_of_nonneg_right hgap
    _ ≤ spread gap s (k + 1) := spread_add_le_succ k

/-- Any two of them are apart in the end. -/
theorem spread_add_le (hgap : 0 ≤ gap) (hij : i < j) : spread gap s i + gap ≤ spread gap s j :=
  (spread_add_le_succ i).trans (spread_mono hgap hij)

theorem add_nsmul_le_spread (hjk : j ≤ k) : s j + (k - j) • gap ≤ spread gap s k := by
  induction k with
  | zero =>
      obtain rfl : j = 0 := by omega
      simp [spread]
  | succ k ih =>
      rcases Nat.lt_or_eq_of_le hjk with hlt | rfl
      · have hsucc : k + 1 - j = k - j + 1 := by omega
        calc
          s j + (k + 1 - j) • gap = s j + (k - j) • gap + gap := by
            rw [hsucc, succ_nsmul, add_assoc]
          _ ≤ spread gap s k + gap := by
            gcongr
            exact ih (by omega)
          _ ≤ spread gap s (k + 1) := spread_add_le_succ k
      · rw [Nat.sub_self, zero_nsmul, add_zero]
        exact le_spread (k + 1)

omit [IsOrderedAddMonoid α] in
theorem exists_spread_eq (k : ℕ) : ∃ j ≤ k, spread gap s k = s j + (k - j) • gap := by
  induction k with
  | zero => exact ⟨0, le_refl 0, by simp [spread]⟩
  | succ k ih =>
      obtain ⟨j, hj, heq⟩ := ih
      rcases max_choice (s (k + 1)) (spread gap s k + gap) with hmax | hmax
      · exact ⟨k + 1, le_refl _, by rw [spread, hmax, Nat.sub_self, zero_nsmul, add_zero]⟩
      · -- Pushed by the one before, and so by whatever pushed that.
        have hsucc : k + 1 - j = k - j + 1 := by omega
        refine ⟨j, by omega, ?_⟩
        rw [spread, hmax, heq, hsucc, succ_nsmul, add_assoc]

end Spread
