import Mathlib.Data.List.Basic
import Mathlib.Logic.Function.Basic

/-!
Labelled transition systems as guarded commands, and the two induction rules
every safety proof of this development is an instance of.

A label names the party that moves together with every choice its environment
makes for it, so a step is a function of the state and the label: `enabled`
says when the step can be taken and `effect` what it does. One definition then
serves for proofs and for replaying a concrete schedule (`System.replay`).

A run carries the list of its labels, oldest first. A property of states is
proved from an inductive invariant (`System.Reachable.invariant`); a property
that mentions what happened earlier in the run, such as the order in which two
events occurred, is proved from a history invariant (`System.Run.history`),
which sees the labels as well.

`Before` is the order in which two labels occur in a run. In an interleaving
semantics the order of steps is real time, so `Before` is how "this call had
returned before that one started" is written.
-/

namespace Transition

/-- Initial states, guards and effects. -/
structure System (σ : Type*) (ε : Type*) where
  /-- The states a run may start from. -/
  init : σ → Prop
  /-- The step `e` can be taken in `s`. -/
  enabled : σ → ε → Prop
  /-- The state after the step `e`, where it can be taken. -/
  effect : σ → ε → σ

variable {σ ε : Type*}

/-- `S.Run evs s`: some run of `S` that did `evs`, oldest first, is in `s`. -/
inductive System.Run (S : System σ ε) : List ε → σ → Prop
  | start {s : σ} (h : S.init s) : System.Run S [] s
  | next {evs : List ε} {s : σ} {e : ε} (hrun : System.Run S evs s)
      (he : S.enabled s e) : System.Run S (evs ++ [e]) (S.effect s e)

/-- A state some run is in. -/
def System.Reachable (S : System σ ε) (s : σ) : Prop := ∃ evs, S.Run evs s

theorem System.Run.reachable {S : System σ ε} {evs : List ε} {s : σ}
    (h : S.Run evs s) : S.Reachable s := ⟨evs, h⟩

/-- The same system with only the steps that meet a condition on the state
before the step. -/
def System.restrict (S : System σ ε) (C : σ → ε → Prop) : System σ ε where
  init := S.init
  enabled s e := S.enabled s e ∧ C s e
  effect := S.effect

instance (S : System σ ε) (C : σ → ε → Prop) (s : σ) (e : ε)
    [Decidable (S.enabled s e)] [Decidable (C s e)] :
    Decidable ((S.restrict C).enabled s e) :=
  inferInstanceAs (Decidable (_ ∧ _))

/-- What holds initially and survives every step holds of every reachable
state. The step may use whatever is already known of reachable states. -/
theorem System.Reachable.invariant {S : System σ ε} {I : σ → Prop}
    (hinit : ∀ s, S.init s → I s)
    (hstep : ∀ s e, S.Reachable s → I s → S.enabled s e → I (S.effect s e)) {s : σ}
    (hs : S.Reachable s) : I s := by
  obtain ⟨evs, hrun⟩ := hs
  induction hrun with
  | start h => exact hinit _ h
  | next hrun he ih => exact hstep _ _ hrun.reachable ih he

/-- The rule for properties of the run so far. -/
theorem System.Run.history {S : System σ ε} {I : List ε → σ → Prop}
    (hinit : ∀ s, S.init s → I [] s)
    (hstep : ∀ evs s e, S.Run evs s → I evs s → S.enabled s e →
      I (evs ++ [e]) (S.effect s e))
    {evs : List ε} {s : σ} (hrun : S.Run evs s) : I evs s := by
  induction hrun with
  | start h => exact hinit _ h
  | next hrun he ih => exact hstep _ _ _ hrun ih he

/-! ### Partial step functions -/

/-- The system of a step function that says nothing where a step cannot be
taken. -/
def System.ofStep (init : σ → Prop) (step : σ → ε → Option σ) : System σ ε where
  init := init
  enabled s e := (step s e).isSome = true
  effect s e := (step s e).getD s

instance (init : σ → Prop) (step : σ → ε → Option σ) (s : σ) (e : ε) :
    Decidable ((System.ofStep init step).enabled s e) :=
  inferInstanceAs (Decidable ((step s e).isSome = true))

theorem System.step_of_enabled {init : σ → Prop} {step : σ → ε → Option σ} {s : σ} {e : ε}
    (h : (System.ofStep init step).enabled s e) :
    step s e = some ((System.ofStep init step).effect s e) := by
  obtain ⟨s', hs'⟩ := Option.isSome_iff_exists.mp h
  simp [System.ofStep, hs']

/-! ### Replaying a schedule -/

/-- The state a schedule leads to, if each of its steps can be taken. -/
def System.replay (S : System σ ε) [∀ s e, Decidable (S.enabled s e)] (s : σ) :
    List ε → Option σ
  | [] => some s
  | e :: evs => if S.enabled s e then S.replay (S.effect s e) evs else none

theorem System.Run.replay {S : System σ ε} [∀ s e, Decidable (S.enabled s e)]
    {evs : List ε} {s : σ} (hrun : S.Run evs s) {evs' : List ε} {s' : σ}
    (h : S.replay s evs' = some s') : S.Run (evs ++ evs') s' := by
  induction evs' generalizing evs s with
  | nil =>
      obtain rfl : s = s' := by simpa [System.replay] using h
      simpa using hrun
  | cons e evs' ih =>
      rw [System.replay] at h
      split at h
      · rename_i he
        simpa using ih (hrun.next he) h
      · cases h

/-- What a schedule shows from an initial state, some reachable state has. -/
theorem System.run_of_replay {S : System σ ε} [∀ s e, Decidable (S.enabled s e)]
    {β : Type*} {f : σ → β} {b : β} {s : σ} {evs : List ε}
    (h : (S.replay s evs).map f = some b) (hinit : S.init s) :
    ∃ s', S.Run evs s' ∧ f s' = b := by
  obtain ⟨s', hs', hf⟩ := Option.map_eq_some_iff.mp h
  exact ⟨s', by simpa using (System.Run.start hinit).replay hs', hf⟩

/-- A schedule that can be taken leads where its effects do. -/
theorem System.replay_eq_foldl {S : System σ ε} [∀ s e, Decidable (S.enabled s e)] {s : σ}
    {evs : List ε} (h : (S.replay s evs).isSome = true) :
    S.replay s evs = some (evs.foldl S.effect s) := by
  induction evs generalizing s with
  | nil => rfl
  | cons e evs ih =>
      rw [System.replay] at h ⊢
      split at h
      · rename_i he
        rw [if_pos he, ih h, List.foldl_cons]
      · cases h

/-! ### Order of events -/

/-- Some occurrence of `a` precedes some occurrence of `b`. -/
def Before (a b : ε) (evs : List ε) : Prop :=
  ∃ l₁ l₂ l₃, evs = l₁ ++ a :: (l₂ ++ b :: l₃)

/-- A new last event is only ever the later one of a pair. -/
theorem before_append_singleton {a b e : ε} {evs : List ε} :
    Before a b (evs ++ [e]) ↔ Before a b evs ∨ (a ∈ evs ∧ e = b) := by
  constructor
  · rintro ⟨l₁, l₂, l₃, h⟩
    rcases List.eq_nil_or_concat l₃ with rfl | ⟨l₃, x, rfl⟩
    · have h' : evs ++ [e] = (l₁ ++ a :: l₂) ++ [b] := by simp [h]
      obtain ⟨rfl, heq⟩ := List.append_inj' h' rfl
      exact Or.inr ⟨by simp, by simpa using heq⟩
    · have h' : evs ++ [e] = (l₁ ++ a :: (l₂ ++ b :: l₃)) ++ [x] := by simp [h]
      obtain ⟨rfl, _⟩ := List.append_inj' h' rfl
      exact Or.inl ⟨l₁, l₂, l₃, rfl⟩
  · rintro (⟨l₁, l₂, l₃, rfl⟩ | ⟨ha, rfl⟩)
    · exact ⟨l₁, l₂, l₃ ++ [e], by simp⟩
    · obtain ⟨l₁, l₂, rfl⟩ := List.append_of_mem ha
      exact ⟨l₁, l₂, [], by simp⟩

end Transition
