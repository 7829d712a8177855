import Mathlib.Algebra.BigOperators.Group.Finset.Piecewise
import Mathlib.Algebra.BigOperators.Fin
import Mathlib.Data.Fintype.BigOperators
import Mathlib.Tactic.Abel

/-!
Conservation laws of a system of parties.

Something is handed out to parties, which keep it for a while and put it in the bank.
The law is that what is in the bank and what the parties hold make up all that was
handed out (`Conserved`). A step moves one party: it may take something new, and it may
put something in the bank (`Conserved.move`). When no party holds anything any more,
everything is in the bank (`Conserved.settled`).

Amounts are in a commutative monoid with cancellation: numbers for counters, multisets
for things that are told apart.
-/

namespace Balance

variable {ι π M : Type*} [Fintype ι] [AddCancelCommMonoid M]

/-- The bank and the parties have `all` together; `hold` is what a party has. -/
def Conserved (hold : π → M) (party : ι → π) (bank all : M) : Prop :=
  bank + ∑ i, hold (party i) = all

variable {hold : π → M} {party : ι → π} {bank all : M}

theorem Conserved.of_forall (h : ∀ i, hold (party i) = 0) (bank : M) :
    Conserved hold party bank bank := by
  rw [Conserved, Finset.sum_eq_zero fun i _ => h i, add_zero]

/-- Everything is in the bank. -/
theorem Conserved.settled (h : Conserved hold party bank all) (hnone : ∀ i, hold (party i) = 0) :
    bank = all := by
  rwa [Conserved, Finset.sum_eq_zero fun i _ => hnone i, add_zero] at h

variable [DecidableEq ι]

theorem sum_update (hold : π → M) (party : ι → π) (i : ι) (x : π) :
    ∑ j, hold (Function.update party i x j) + hold (party i) = ∑ j, hold (party j) + hold x := by
  have hcomp : (fun j => hold (Function.update party i x j)) =
      Function.update (fun j => hold (party j)) i (hold x) := by
    funext j
    exact Function.apply_update (fun _ => hold) party i x j
  rw [hcomp, Finset.sum_update_of_mem (Finset.mem_univ i),
    Finset.sum_eq_add_sum_sdiff_singleton_of_mem (Finset.mem_univ i) fun j => hold (party j)]
  abel

/-- A party takes `new` and puts what it does not keep in the bank. -/
theorem Conserved.move (h : Conserved hold party bank all) {i : ι} {x : π} {bank' new : M}
    (hmove : bank' + hold x = bank + hold (party i) + new) :
    Conserved hold (Function.update party i x) bank' (all + new) := by
  rw [Conserved] at h ⊢
  apply add_right_cancel (b := hold (party i))
  calc bank' + ∑ j, hold (Function.update party i x j) + hold (party i)
      = bank' + (∑ j, hold (Function.update party i x j) + hold (party i)) := by abel
    _ = bank' + (∑ j, hold (party j) + hold x) := by rw [sum_update]
    _ = (bank' + hold x) + ∑ j, hold (party j) := by abel
    _ = (bank + hold (party i) + new) + ∑ j, hold (party j) := by rw [hmove]
    _ = (bank + ∑ j, hold (party j)) + new + hold (party i) := by abel
    _ = all + new + hold (party i) := by rw [h]

/-- A party that keeps what it has. -/
theorem Conserved.keep (h : Conserved hold party bank all) {i : ι} {x : π}
    (hkeep : hold x = hold (party i)) : Conserved hold (Function.update party i x) bank all := by
  have hmove : Conserved hold (Function.update party i x) bank (all + 0) :=
    h.move (by rw [hkeep, add_zero])
  rwa [add_zero] at hmove

end Balance
