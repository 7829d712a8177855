import Mathlib.Logic.Function.Basic

/-!
Programs as trees of operations.

A program (`Prog`) either ends with a result or performs an operation and goes on
with its answer. What an operation does is not part of the program: `Prog.run`
runs one against a state, all at once and with nobody else around, and a
concurrent system runs several of them one operation at a time.

Three judgements look at a program alone. `Prog.Ends` says that with certain answers
it performs certain operations and ends in a result; it is compositional in
`Prog.bind`. `Prog.Uses P` says that every operation on every branch satisfies `P`.
`Prog.Ensures Q` says that `Q` holds of the operations performed and the result in
the end, whatever the answers are; it is how a program is verified against an
environment that may do anything.
-/

namespace Effects

/-- A program with operations `O`, whose operation `o` is answered by an `R o`;
it ends with a `ρ`. -/
inductive Prog {O : Type*} (R : O → Type*) (ρ : Type*)
  | ret (r : ρ)
  | op (o : O) (next : R o → Prog R ρ)

variable {σ ρ O : Type*} {R : O → Type*}

/-- The result of a program that has ended. -/
def Prog.result : Prog R ρ → Option ρ
  | .ret r => some r
  | .op _ _ => none

theorem Prog.eq_ret_of_result {p : Prog R ρ} {r : ρ} (h : p.result = some r) : p = .ret r := by
  cases p with
  | ret r' => rw [Option.some.inj h]
  | op o next => cases h

/-- What an operation does to the state, and its answer. -/
abbrev Act (σ : Type*) {O : Type*} (R : O → Type*) := (o : O) → σ → σ × R o

/-- A whole run of a program with nobody else around. -/
def Prog.run (act : Act σ R) : Prog R ρ → σ → σ × ρ
  | .ret r, s => (s, r)
  | .op o next, s => (next (act o s).2).run act (act o s).1

/-- Every operation on every branch satisfies `P`. -/
def Prog.Uses (P : O → Prop) : Prog R ρ → Prop
  | .ret _ => True
  | .op o next => P o ∧ ∀ a, (next a).Uses P

theorem Prog.Uses.mono {p : Prog R ρ} {P Q : O → Prop} (h : p.Uses P)
    (hPQ : ∀ o, P o → Q o) : p.Uses Q := by
  induction p with
  | ret r => trivial
  | op o next ih => exact ⟨hPQ o h.1, fun a => ih a (h.2 a)⟩

/-- An operation and its answer. -/
abbrev Event {O : Type*} (R : O → Type*) := Σ o : O, R o

/-- Whatever the answers, the program ends in a result for which `Q` holds of it
and of everything performed, `past` included. -/
def Prog.Ensures (Q : List (Event R) → ρ → Prop) (past : List (Event R)) : Prog R ρ → Prop
  | .ret r => Q past r
  | .op o next => ∀ a, (next a).Ensures Q (past ++ [⟨o, a⟩])

/-- With the answers in `tr` the program performs the operations in `tr` and ends
with a result. -/
inductive Prog.Ends : Prog R ρ → List (Event R) → ρ → Prop
  | ret (r : ρ) : Prog.Ends (.ret r) [] r
  | op {o : O} {next : R o → Prog R ρ} {a : R o} {tr : List (Event R)} {r : ρ}
      (h : Prog.Ends (next a) tr r) : Prog.Ends (.op o next) (⟨o, a⟩ :: tr) r

theorem Prog.Ensures.of_ends {Q : List (Event R) → ρ → Prop} {p : Prog R ρ}
    {past tr : List (Event R)} {r : ρ} (h : p.Ensures Q past) (hends : p.Ends tr r) :
    Q (past ++ tr) r := by
  induction hends generalizing past with
  | ret r =>
      rw [List.append_nil]
      exact h
  | op _ ih => simpa using ih (h _)

/-- First `p`, and then what its result says. -/
def Prog.bind {τ : Type*} (p : Prog R ρ) (f : ρ → Prog R τ) : Prog R τ :=
  match p with
  | .ret r => f r
  | .op o next => .op o fun a => (next a).bind f

theorem Prog.run_bind {τ : Type*} (act : Act σ R) (p : Prog R ρ) (f : ρ → Prog R τ) (s : σ) :
    (p.bind f).run act s = (f (p.run act s).2).run act (p.run act s).1 := by
  induction p generalizing s with
  | ret r => rfl
  | op o next ih => exact ih _ _

theorem Prog.Ends.bind {τ : Type*} {p : Prog R ρ} {f : ρ → Prog R τ} {tr₁ tr₂ : List (Event R)}
    {r : ρ} {t : τ} (h₁ : p.Ends tr₁ r) (h₂ : (f r).Ends tr₂ t) :
    (p.bind f).Ends (tr₁ ++ tr₂) t := by
  induction h₁ with
  | ret r => exact h₂
  | op _ ih => exact .op (ih h₂)

theorem Prog.Ends.of_bind {τ : Type*} {p : Prog R ρ} {f : ρ → Prog R τ} {tr : List (Event R)}
    {t : τ} (h : (p.bind f).Ends tr t) :
    ∃ tr₁ r tr₂, tr = tr₁ ++ tr₂ ∧ p.Ends tr₁ r ∧ (f r).Ends tr₂ t := by
  induction p generalizing tr with
  | ret r => exact ⟨[], r, tr, rfl, .ret r, h⟩
  | op o next ih =>
      cases h with
      | op h =>
          obtain ⟨tr₁, r, tr₂, rfl, h₁, h₂⟩ := ih _ h
          exact ⟨_ :: tr₁, r, tr₂, rfl, .op h₁, h₂⟩

end Effects
