import RostamBench.Lib.Prog

/-!
Programs that may exit, and rules for what happens before every one of their
operations.

A program that may exit ends with an `Except`. `Prog.andThen` goes on only without an
exit, and `Prog.forEach` is a loop.

A `Monitor` follows a run: it has a state of its own that every operation and its
answer change, and says which operations are allowed where. `Prog.Guarded` says that a
program performs only allowed operations, whatever the answers are, and how it may end.
The rules go along the program, with an invariant for a loop, and `Guarded.of_ends` is
what they amount to for a whole run.
-/

namespace Effects

variable {α β ε ρ G O : Type*} {R : O → Type*}

def Prog.andThen (p : Prog R (Except ε α)) (f : α → Prog R (Except ε β)) :
    Prog R (Except ε β) :=
  p.bind fun r =>
    match r with
    | .ok a => f a
    | .error e => .ret (.error e)

/-- The loop `for a in as`, with the variables of the program in a `β`. -/
def Prog.forEach (f : β → α → Prog R (Except ε β)) : List α → β → Prog R (Except ε β)
  | [], b => .ret (.ok b)
  | a :: as, b => (f b a).andThen (Prog.forEach f as)

/-! ### Runs against fixed answers -/

section Run

variable {σ : Type*} {act : Act σ R} {s : σ}

/-- A run against fixed answers is one of the runs. -/
theorem Prog.exists_ends (act : Act σ R) (p : Prog R ρ) (s : σ) :
    ∃ tr, p.Ends tr (p.run act s).2 := by
  induction p generalizing s with
  | ret r => exact ⟨[], .ret r⟩
  | op o next ih =>
      obtain ⟨tr, h⟩ := ih _ (act o s).1
      exact ⟨_, .op h⟩

/-- The operations of a run against fixed answers. -/
def Prog.events (act : Act σ R) : Prog R ρ → σ → List (Event R)
  | .ret _, _ => []
  | .op o next, s => ⟨o, (act o s).2⟩ :: (next (act o s).2).events act (act o s).1

theorem Prog.ends_events (act : Act σ R) (p : Prog R ρ) (s : σ) :
    p.Ends (p.events act s) (p.run act s).2 := by
  induction p generalizing s with
  | ret r => exact .ret r
  | op o next ih => exact .op (ih _ _)

theorem Prog.run_andThen_ok {p : Prog R (Except ε α)} {f : α → Prog R (Except ε β)} {s' : σ}
    {a : α} (h : p.run act s = (s', .ok a)) : (p.andThen f).run act s = (f a).run act s' := by
  rw [Prog.andThen, Prog.run_bind, h]

theorem Prog.run_andThen_error {p : Prog R (Except ε α)} {f : α → Prog R (Except ε β)} {s' : σ}
    {e : ε} (h : p.run act s = (s', .error e)) : (p.andThen f).run act s = (s', .error e) := by
  rw [Prog.andThen, Prog.run_bind, h]
  rfl

/-- What is performed before and after a part that does not exit. -/
theorem Prog.events_andThen_ok {p : Prog R (Except ε α)} {f : α → Prog R (Except ε β)} {s' : σ}
    {a : α} (h : p.run act s = (s', .ok a)) :
    (p.andThen f).events act s = p.events act s ++ (f a).events act s' := by
  rw [Prog.andThen]
  induction p generalizing s with
  | ret r =>
      obtain ⟨rfl, rfl⟩ : s = s' ∧ r = .ok a := by simpa [Prog.run] using h
      rfl
  | op o next ih =>
      show _ :: _ = _ :: _
      exact congrArg _ (ih _ h)

/-- A loop whose rounds simulate a step of `g` simulates `g`'s own loop. -/
theorem Prog.run_forEach {f : β → α → Prog R (Except ε β)} {γ : Type*} {g : γ → α → Except ε γ}
    {Sim : γ → β → Prop} {as : List α}
    (hf : ∀ a ∈ as, ∀ c b, Sim c b →
      (∃ c' b', g c a = .ok c' ∧ (f b a).run act s = (s, .ok b') ∧ Sim c' b') ∨
      ∃ e, g c a = .error e ∧ (f b a).run act s = (s, .error e))
    {c : γ} {b : β} (h : Sim c b) :
    (∃ c' b', as.foldlM g c = .ok c' ∧ (Prog.forEach f as b).run act s = (s, .ok b') ∧ Sim c' b') ∨
      ∃ e, as.foldlM g c = .error e ∧ (Prog.forEach f as b).run act s = (s, .error e) := by
  induction as generalizing c b with
  | nil => exact Or.inl ⟨c, b, rfl, rfl, h⟩
  | cons a as ih =>
      obtain ⟨ha, has⟩ := List.forall_mem_cons.mp hf
      rcases ha c b h with ⟨c', b', hg, hrun, hsim⟩ | ⟨e, hg, hrun⟩
      · rw [List.foldlM_cons, hg, Prog.forEach, Prog.run_andThen_ok hrun]
        exact ih has hsim
      · rw [List.foldlM_cons, hg, Prog.forEach, Prog.run_andThen_error hrun]
        exact Or.inr ⟨e, rfl, rfl⟩

/-- The same for rounds that never exit. -/
theorem Prog.run_forEach_ok {f : β → α → Prog R (Except ε β)} {γ : Type*} {g : γ → α → γ}
    {Sim : γ → β → Prop} {as : List α}
    (hf : ∀ a ∈ as, ∀ c b, Sim c b → ∃ b', (f b a).run act s = (s, .ok b') ∧ Sim (g c a) b')
    {c : γ} {b : β} (h : Sim c b) :
    ∃ b', (Prog.forEach f as b).run act s = (s, .ok b') ∧ Sim (as.foldl g c) b' := by
  induction as generalizing c b with
  | nil => exact ⟨b, rfl, h⟩
  | cons a as ih =>
      obtain ⟨ha, has⟩ := List.forall_mem_cons.mp hf
      obtain ⟨b', hrun, hsim⟩ := ha c b h
      rw [Prog.forEach, Prog.run_andThen_ok hrun]
      exact ih has hsim

end Run

/-! ### Monitors -/

structure Monitor {O : Type*} (R : O → Type*) (G : Type*) where
  step : G → Event R → G
  ok : G → Event R → Prop

/-- Only allowed operations, and an end in `Q`. -/
def Prog.Guarded (m : Monitor R G) (Q : G → ρ → Prop) : Prog R ρ → G → Prop
  | .ret r, g => Q g r
  | .op o next, g => ∀ a, m.ok g ⟨o, a⟩ ∧ (next a).Guarded m Q (m.step g ⟨o, a⟩)

variable {m : Monitor R G} {g : G}

theorem Prog.Guarded.mono {p : Prog R ρ} {Q Q' : G → ρ → Prop} (h : p.Guarded m Q g)
    (hQ : ∀ g r, Q g r → Q' g r) : p.Guarded m Q' g := by
  induction p generalizing g with
  | ret r => exact hQ g r h
  | op o next ih => exact fun a => ⟨(h a).1, ih a (h a).2⟩

theorem Prog.Guarded.bind {τ : Type*} {p : Prog R ρ} {f : ρ → Prog R τ} {Q : G → ρ → Prop}
    {Q' : G → τ → Prop} (h : p.Guarded m Q g) (hf : ∀ g r, Q g r → (f r).Guarded m Q' g) :
    (p.bind f).Guarded m Q' g := by
  induction p generalizing g with
  | ret r => exact hf g r h
  | op o next ih => exact fun a => ⟨(h a).1, ih a (h a).2⟩

/-- How a program that may exit ends: with `Q` after an end and `E` after an exit. -/
def Either (Q : G → α → Prop) (E : G → ε → Prop) (g : G) : Except ε α → Prop
  | .ok a => Q g a
  | .error e => E g e

theorem Prog.Guarded.andThen {p : Prog R (Except ε α)} {f : α → Prog R (Except ε β)}
    {Q : G → α → Prop} {Q' : G → β → Prop} {E : G → ε → Prop}
    (h : p.Guarded m (Either Q E) g) (hf : ∀ g a, Q g a → (f a).Guarded m (Either Q' E) g) :
    (p.andThen f).Guarded m (Either Q' E) g := by
  apply h.bind
  intro g r hr
  cases r with
  | ok a => exact hf g a hr
  | error e => exact hr

/-- The rule for a loop: what a round keeps. -/
theorem Prog.Guarded.forEach {f : β → α → Prog R (Except ε β)} {I : G → β → Prop}
    {E : G → ε → Prop} {as : List α}
    (hf : ∀ g b, ∀ a ∈ as, I g b → (f b a).Guarded m (Either I E) g) {b : β} (h : I g b) :
    (Prog.forEach f as b).Guarded m (Either I E) g := by
  induction as generalizing b g with
  | nil => exact h
  | cons a as ih =>
      apply (hf g b a List.mem_cons_self h).andThen
      intro g b hI
      exact ih (fun g b a ha => hf g b a (List.mem_cons_of_mem _ ha)) hI

/-- Whatever the answers were, every operation of a run was allowed when it was
performed. -/
theorem Prog.Guarded.of_ends {p : Prog R ρ} {Q : G → ρ → Prop} {tr : List (Event R)} {r : ρ}
    (h : p.Guarded m Q g) (hends : p.Ends tr r) :
    (∀ before e after, tr = before ++ e :: after → m.ok (before.foldl m.step g) e) ∧
      Q (tr.foldl m.step g) r := by
  induction hends generalizing g with
  | ret r =>
      refine ⟨?_, h⟩
      intro before e after heq
      exact absurd heq (by simp)
  | @op o next a tr r hends ih =>
      obtain ⟨hok, hnext⟩ := h a
      obtain ⟨hall, hQ⟩ := ih hnext
      refine ⟨?_, hQ⟩
      intro before e after heq
      cases before with
      | nil =>
          obtain ⟨rfl, -⟩ := List.cons.inj heq
          exact hok
      | cons e' before =>
          obtain ⟨rfl, htail⟩ := List.cons.inj heq
          exact hall before e after htail

end Effects
