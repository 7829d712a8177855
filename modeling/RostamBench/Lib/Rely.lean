import RostamBench.Lib.Interleave
import RostamBench.Lib.Watched

/-!
Programs against a state that answers them.

Alone, a program is followed through the states its own operations lead to
(`Prog.Meets`); the environment still chooses how each of them goes. The rules go along
the program, and the one for a loop has an invariant that sees the part of the list that
is done.

Among others, nothing is left of the state but what everybody keeps. `Prog.Under A P`
says that a program performs only operations in `P` as long as it gets only answers in
`A`. If a condition on the shared state is kept by every operation in `P` and makes every
answer to one an answer in `A`, it holds in every interleaving of such programs
(`under_of_reachable`): each relies on the others for `A` and gives `P` for it.
-/

namespace Effects

variable {σ α β ε ι ρ τ O : Type*} {R : O → Type*}

/-! ### Alone -/

/-- However the operations go, the program ends in a state and with a result for which
`Q` holds. -/
def Prog.Meets (act : ι → Act σ R) (Q : σ → ρ → Prop) : Prog R ρ → σ → Prop
  | .ret r, s => Q s r
  | .op o next, s => ∀ e, (next (act e o s).2).Meets act Q (act e o s).1

variable {act : ι → Act σ R} {s : σ}

theorem Prog.Meets.bind {p : Prog R ρ} {f : ρ → Prog R τ} {Q : σ → ρ → Prop}
    {Q' : σ → τ → Prop} (h : p.Meets act Q s) (hf : ∀ s r, Q s r → (f r).Meets act Q' s) :
    (p.bind f).Meets act Q' s := by
  induction p generalizing s with
  | ret r => exact hf s r h
  | op o next ih => exact fun e => ih _ (h e)

theorem Prog.Meets.andThen {p : Prog R (Except ε α)} {f : α → Prog R (Except ε β)}
    {Q : σ → α → Prop} {Q' : σ → β → Prop} {E : σ → ε → Prop}
    (h : p.Meets act (Either Q E) s) (hf : ∀ s a, Q s a → (f a).Meets act (Either Q' E) s) :
    (p.andThen f).Meets act (Either Q' E) s := by
  apply h.bind
  intro s r hr
  cases r with
  | ok a => exact hf s a hr
  | error e => exact hr

/-- The rule for a loop; `I done` holds after the rounds of `done`. -/
theorem Prog.Meets.forEach {f : β → α → Prog R (Except ε β)} {I : List α → σ → β → Prop}
    {E : σ → ε → Prop}
    (hf : ∀ done a s b, I done s b → (f b a).Meets act (Either (I (done ++ [a])) E) s)
    {as : List α} {b : β} (h : I [] s b) :
    (Prog.forEach f as b).Meets act (Either (I as) E) s := by
  suffices hgen : ∀ done s b, I done s b →
      (Prog.forEach f as b).Meets act (Either (I (done ++ as)) E) s from hgen [] s b h
  clear h
  induction as with
  | nil =>
      intro done s b h
      rw [List.append_nil]
      exact h
  | cons a as ih =>
      intro done s b h
      apply (hf done a s b h).andThen
      intro s b hb
      simpa using ih (done ++ [a]) s b hb

/-! ### Among others -/

/-- As long as the answers are in `A` the operations are in `P`, and `Q` holds of all
that was performed and the result. -/
def Prog.Under (A : (o : O) → R o → Prop) (P : O → Prop) (Q : List (Event R) → ρ → Prop) :
    Prog R ρ → List (Event R) → Prop
  | .ret r, past => Q past r
  | .op o next, past => P o ∧ ∀ a, A o a → (next a).Under A P Q (past ++ [⟨o, a⟩])

variable {A : (o : O) → R o → Prop} {P : O → Prop} {past : List (Event R)}

theorem Prog.Under.bind {p : Prog R ρ} {f : ρ → Prog R τ} {Q : List (Event R) → ρ → Prop}
    {Q' : List (Event R) → τ → Prop} (h : p.Under A P Q past)
    (hf : ∀ tr r, past <+: tr → Q tr r → (f r).Under A P Q' tr) :
    (p.bind f).Under A P Q' past := by
  induction p generalizing past with
  | ret r => exact hf past r List.prefix_rfl h
  | op o next ih =>
      refine ⟨h.1, fun a ha => ih a (h.2 a ha) ?_⟩
      intro tr r htr
      exact hf tr r ((List.prefix_append past _).trans htr)

end Effects

namespace Interleave

open Effects Transition

variable {σ ι ε ρ O : Type*} {R : O → Type*} {act : ε → Act σ R} {start : σ → Prop}

/-- The only program there is ends as it does alone. -/
theorem meets_of_reachable {p : Prog R ρ} {Q : σ → ρ → Prop} {s : State σ Unit R ρ}
    (hp : ∀ s, start s → p.Meets act Q s)
    (hs : (system act start fun _ : Unit => p).Reachable s) {r : ρ}
    (hr : s.prog () = .ret r) : Q s.shared r := by
  have hinv : (s.prog ()).Meets act Q s.shared := by
    refine hs.invariant (I := fun s => (s.prog ()).Meets act Q s.shared) ?_ ?_
    · rintro s ⟨hstart, hprog, -⟩
      rw [hprog]
      exact hp _ hstart
    · rintro s ⟨⟨⟩, e⟩ - h ⟨o, next, hnext⟩
      rw [hnext] at h
      simpa [system, State.step, hnext] using h e
  rw [hr] at hinv
  exact hinv

variable [DecidableEq ι] {progs : ι → Prog R ρ} {s : State σ ι R ρ}

/-- The rule of rely and guarantee. -/
theorem under_of_reachable {A : (o : O) → R o → Prop} {P : O → Prop}
    {Q : ι → List (Event R) → ρ → Prop} {I : σ → Prop} (hstart : ∀ s, start s → I s)
    (hkeep : ∀ e o s, I s → P o → I (act e o s).1 ∧ A o (act e o s).2)
    (hprogs : ∀ i, (progs i).Under A P (Q i) [])
    (hs : (system act start progs).Reachable s) :
    I s.shared ∧ ∀ i, (∀ ev ∈ s.trace i, P ev.1 ∧ A ev.1 ev.2) ∧
      ∀ r, s.prog i = .ret r → Q i (s.trace i) r := by
  have hinv : I s.shared ∧ ∀ i, (s.prog i).Under A P (Q i) (s.trace i) ∧
      ∀ ev ∈ s.trace i, P ev.1 ∧ A ev.1 ev.2 := by
    refine hs.invariant (I := fun s => I s.shared ∧ ∀ i,
      (s.prog i).Under A P (Q i) (s.trace i) ∧ ∀ ev ∈ s.trace i, P ev.1 ∧ A ev.1 ev.2) ?_ ?_
    · rintro s ⟨hs, hprog, htrace⟩
      refine ⟨hstart _ hs, fun i => ?_⟩
      rw [hprog, htrace]
      exact ⟨hprogs i, by simp⟩
    · rintro s ⟨i, e⟩ - ⟨hI, h⟩ ⟨o, next, hi⟩
      obtain ⟨hunder, htrace⟩ := h i
      rw [hi] at hunder
      obtain ⟨hI', hA⟩ := hkeep e o _ hI hunder.1
      refine ⟨by simpa [system, State.step, hi] using hI', fun j => ?_⟩
      by_cases hj : j = i
      · subst hj
        have hlast : ∀ ev ∈ s.trace j ++ [⟨o, (act e o s.shared).2⟩], P ev.1 ∧ A ev.1 ev.2 := by
          intro ev hev
          rcases List.mem_append.mp hev with hev | hev
          · exact htrace ev hev
          · obtain rfl := List.mem_singleton.mp hev
            exact ⟨hunder.1, hA⟩
        simpa [system, State.step, hi] using And.intro (hunder.2 _ hA) hlast
      · simpa [system, State.step, hi, hj] using h j
  refine ⟨hinv.1, fun i => ⟨(hinv.2 i).2, ?_⟩⟩
  intro r hr
  have := (hinv.2 i).1
  rw [hr] at this
  exact this

end Interleave
