import RostamBench.Lib.Transition

/-!
A component of a larger system.

A component is a part of the state (`part`) and the labels that move it (`own`). When
every step of the whole system either is a step of the component, under its own label,
or leaves the part alone, what a run of the whole does to the part is a run of the
component (`System.Run.project`), so whatever is known of the component's runs holds
of it in the larger system.
-/

namespace Transition

variable {σ τ ε δ : Type*}

structure Component (S : System σ ε) (T : System τ δ) (part : σ → τ) (own : ε → Option δ) :
    Prop where
  start : ∀ {s}, S.init s → T.init (part s)
  step : ∀ {s e d}, S.enabled s e → own e = some d →
    T.enabled (part s) d ∧ part (S.effect s e) = T.effect (part s) d
  keep : ∀ {s e}, S.enabled s e → own e = none → part (S.effect s e) = part s

variable {S : System σ ε} {T : System τ δ} {part : σ → τ} {own : ε → Option δ} {evs : List ε}
  {s : σ}

theorem System.Run.project (hrun : S.Run evs s) (h : Component S T part own) :
    T.Run (evs.filterMap own) (part s) := by
  induction hrun with
  | start hs => exact .start (h.start hs)
  | @next evs s e hrun he ih =>
      rw [List.filterMap_append]
      cases hown : own e with
      | none =>
          rw [h.keep he hown]
          simpa [hown] using ih
      | some d =>
          obtain ⟨hd, heffect⟩ := h.step he hown
          rw [heffect]
          simpa [hown] using ih.next hd

end Transition
