import RostamBench.Lib.Balance
import RostamBench.Lib.Prog
import RostamBench.Lib.Transition

/-!
Programs that share a state, run one operation at a time in any order.

The answer to an operation may depend on the shared state, which every program
changes, and on a choice of the environment, which the label of the step carries.
Each program has a trace of its own operations and their answers.

What a program ensures alone, whatever the answers are (`Prog.Ensures`), it
ensures among the others (`ensures_of_reachable`): to a single program the others
are only a reason why an answer may be anything.

What the shared state has to do with all the traces together is the ledger rule
(`ledger_of_reachable`): if every operation adds its own amount to what the state has,
the state has the sum of the amounts, whoever performed them and in whichever order.
-/

namespace Interleave

open Effects Transition

/-- The shared state, what is left of every program, and what it has done. -/
structure State (σ ι : Type*) {O : Type*} (R : O → Type*) (ρ : Type*) where
  shared : σ
  prog : ι → Prog R ρ
  trace : ι → List (Event R)

variable {σ ι ε ρ O : Type*} {R : O → Type*} [DecidableEq ι]

/-- Program `i` performs its next operation, with `e` for what the environment
chooses. -/
def State.step (act : ε → Act σ R) (s : State σ ι R ρ) (i : ι) (e : ε) : State σ ι R ρ :=
  match s.prog i with
  | .ret _ => s
  | .op o next =>
      { shared := (act e o s.shared).1
        prog := Function.update s.prog i (next (act e o s.shared).2)
        trace := Function.update s.trace i (s.trace i ++ [⟨o, (act e o s.shared).2⟩]) }

omit [DecidableEq ι] in
/-- Program `i` has an operation left. -/
def State.Unfinished (s : State σ ι R ρ) (i : ι) : Prop := ∃ o next, s.prog i = .op o next

/-- The interleavings of the programs, from any shared state that satisfies
`start`. -/
def system (act : ε → Act σ R) (start : σ → Prop) (progs : ι → Prog R ρ) :
    System (State σ ι R ρ) (ι × ε) where
  init s := start s.shared ∧ s.prog = progs ∧ s.trace = fun _ => []
  enabled s a := s.Unfinished a.1
  effect s a := s.step act a.1 a.2

instance (act : ε → Act σ R) (start : σ → Prop) (progs : ι → Prog R ρ) (s : State σ ι R ρ)
    (a : ι × ε) : Decidable ((system act start progs).enabled s a) :=
  match h : s.prog a.1 with
  | .ret _ => isFalse (by simp [system, State.Unfinished, h])
  | .op o next => isTrue ⟨o, next, h⟩

variable {act : ε → Act σ R} {start : σ → Prop} {progs : ι → Prog R ρ} {s : State σ ι R ρ}
  {Q : ι → List (Event R) → ρ → Prop}

/-- A program that ensures `Q` alone ensures it in every interleaving. -/
theorem ensures_of_reachable (hQ : ∀ i, (progs i).Ensures (Q i) [])
    (hs : (system act start progs).Reachable s) (i : ι) :
    (s.prog i).Ensures (Q i) (s.trace i) := by
  refine hs.invariant (I := fun s => ∀ i, (s.prog i).Ensures (Q i) (s.trace i)) ?_ ?_ i
  · rintro s ⟨_, hprog, htrace⟩ i
    rw [hprog, htrace]
    exact hQ i
  · rintro s ⟨i, e⟩ _ h ⟨o, next, hi⟩ j
    change ((s.step act i e).prog j).Ensures (Q j) ((s.step act i e).trace j)
    have hbefore := h i
    rw [hi] at hbefore
    by_cases hj : j = i
    · subst hj
      simpa [State.step, hi] using hbefore _
    · simpa [State.step, hi, hj] using h j

/-- What the operations of a trace add up to. -/
def total {M : Type*} [AddCommMonoid M] (amount : Event R → M) (tr : List (Event R)) : M :=
  (tr.map amount).sum

theorem total_append_singleton {M : Type*} [AddCommMonoid M] (amount : Event R → M)
    (tr : List (Event R)) (ev : Event R) :
    total amount (tr ++ [ev]) = total amount tr + amount ev := by
  simp [total]

/-- As long as everybody's operations are `clean`, the shared state has what they
all add up to. -/
theorem ledger_of_reachable [Fintype ι] {M : Type*} [AddCancelCommMonoid M]
    (amount : Event R → M) (clean : Event R → Prop) (Has : σ → M → Prop)
    (hinit : ∀ s, start s → Has s 0)
    (hstep : ∀ e o s m, clean ⟨o, (act e o s).2⟩ → Has s m →
      Has (act e o s).1 (m + amount ⟨o, (act e o s).2⟩))
    (hs : (system act start progs).Reachable s) (hclean : ∀ i, ∀ ev ∈ s.trace i, clean ev) :
    Has s.shared (∑ i, total amount (s.trace i)) := by
  refine hs.invariant (I := fun s => (∀ i, ∀ ev ∈ s.trace i, clean ev) →
    Has s.shared (∑ i, total amount (s.trace i))) ?_ ?_ hclean
  · rintro s ⟨hstart, _, htrace⟩ _
    rw [htrace, Finset.sum_eq_zero (fun i _ => by simp [total])]
    exact hinit _ hstart
  · rintro s ⟨i, e⟩ _ h ⟨o, next, hi⟩ hclean
    have hshared : ((system act start progs).effect s (i, e)).shared = (act e o s.shared).1 := by
      simp [system, State.step, hi]
    have htrace : ((system act start progs).effect s (i, e)).trace =
        Function.update s.trace i (s.trace i ++ [⟨o, (act e o s.shared).2⟩]) := by
      simp [system, State.step, hi]
    rw [htrace] at hclean
    have hlast : clean ⟨o, (act e o s.shared).2⟩ := hclean i _ (by simp)
    have hbefore : ∀ j, ∀ ev ∈ s.trace j, clean ev := by
      intro j ev hev
      refine hclean j ev ?_
      by_cases hj : j = i
      · subst hj
        rw [Function.update_self]
        exact List.mem_append_left _ hev
      · rwa [Function.update_of_ne hj]
    have hsum : ∑ j, total amount
          (Function.update s.trace i (s.trace i ++ [⟨o, (act e o s.shared).2⟩]) j) =
        ∑ j, total amount (s.trace j) + amount ⟨o, (act e o s.shared).2⟩ := by
      apply add_right_cancel (b := total amount (s.trace i))
      rw [Balance.sum_update, total_append_singleton, add_assoc, add_comm (amount _)]
    rw [hshared, htrace, hsum]
    exact hstep e o _ _ hlast (h hbefore)

end Interleave
