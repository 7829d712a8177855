import RostamBench.Lib.Prog

/-!
Programs over a store of independent cells.

A store assigns a cell to every key, and an operation acts on the cell of its key
only (`CellOps`). The two facts concurrency needs are a frame rule, a program
changes only the cells it touches (`CellOps.run_frame`), and its companion, it
depends on no others (`CellOps.run_congr`). A program that stays on one key is a
program on the cell of that key (`CellOps.run_of_uses`).
-/

namespace CellProg

open Effects

/-- Operations that act on the cell of one key, atomically. -/
structure CellOps (κ ν : Type*) {O : Type*} (R : O → Type*) where
  key : O → κ
  act : Act ν R

variable {κ ν ρ O : Type*} {R : O → Type*} [DecidableEq κ] {ops : CellOps κ ν R}

namespace CellOps

/-- The store after one operation. -/
def store (ops : CellOps κ ν R) (o : O) (c : κ → ν) : κ → ν :=
  Function.update c (ops.key o) (ops.act o (c (ops.key o))).1

/-- The operations as they act on a whole store. -/
def onStore (ops : CellOps κ ν R) : Act (κ → ν) R :=
  fun o c => (ops.store o c, (ops.act o (c (ops.key o))).2)

/-- A whole run on a store. -/
abbrev run (ops : CellOps κ ν R) (p : Prog R ρ) (c : κ → ν) : (κ → ν) × ρ := p.run ops.onStore c

/-- A program leaves every cell it does not touch as it was. -/
theorem run_frame (P : κ → Prop) {p : Prog R ρ} (h : p.Uses fun o => P (ops.key o)) (c : κ → ν)
    {k : κ} (hk : ¬ P k) : (ops.run p c).1 k = c k := by
  induction p generalizing c with
  | ret r => rfl
  | op o next ih =>
      have hne : k ≠ ops.key o := fun heq => hk (heq ▸ h.1)
      rw [run, Prog.run, ih _ (h.2 _)]
      exact Function.update_of_ne hne _ _

/-- A program cannot tell apart stores that agree on what it touches. -/
theorem run_congr (P : κ → Prop) {p : Prog R ρ} (h : p.Uses fun o => P (ops.key o))
    {c c' : κ → ν} (hc : ∀ k, P k → c k = c' k) :
    (ops.run p c).2 = (ops.run p c').2 ∧ ∀ k, P k → (ops.run p c).1 k = (ops.run p c').1 k := by
  induction p generalizing c c' with
  | ret r => exact ⟨rfl, hc⟩
  | op o next ih =>
      have hcell : c (ops.key o) = c' (ops.key o) := hc _ h.1
      simp only [run, Prog.run, onStore]
      rw [hcell]
      refine ih _ (h.2 _) fun j hj => ?_
      by_cases hjk : j = ops.key o
      · subst hjk; simp [store, hcell]
      · simp [store, hjk, hc j hj]

/-- A program that stays on one key runs on the cell of that key. -/
theorem run_of_uses {k : κ} {p : Prog R ρ} (h : p.Uses fun o => ops.key o = k) (c : κ → ν) :
    ops.run p c = (Function.update c k (p.run ops.act (c k)).1, (p.run ops.act (c k)).2) := by
  induction p generalizing c with
  | ret r => simp [run, Prog.run]
  | op o next ih =>
      obtain ⟨rfl, hnext⟩ := h
      have ih := ih _ (hnext (ops.act o (c (ops.key o))).2) (ops.store o c)
      simp only [run, Prog.run, onStore] at ih ⊢
      rw [ih]
      simp [store]

end CellOps

end CellProg
