import RostamBench.Lib.Transition

/-!
Two systems under one schedule.

The labels of two transition systems carry what each of them answers, and a
schedule is what is left of the labels when the answers are taken away: two maps
`f` and `g` into one type of slots. The systems are in lockstep along a relation
when a step of the first can be followed by the second in the same slot, and every
such pair of steps keeps the relation. Then a run of the first has a run of the
second with its schedule, and any two runs with one schedule end up related.

The relation may hold only as long as the run is short enough for something, which
is the bound `B` on the labels of the first system. It has to hold of every start
of a run it holds of.
-/

namespace Transition

variable {σ τ ε δ κ : Type*}

/-- `T` follows `S` slot by slot, and `R` relates the runs. -/
structure Lockstep (S : System σ ε) (T : System τ δ) (f : ε → κ) (g : δ → κ)
    (B : List ε → Prop) (R : List ε → σ → List δ → τ → Prop) : Prop where
  bound : ∀ {evs e}, B (evs ++ [e]) → B evs
  start : ∀ {s t}, S.init s → T.init t → R [] s [] t
  /-- A step of `S` leaves `T` a step in the same slot. -/
  follow : ∀ {evs s evs' t e}, B (evs ++ [e]) → R evs s evs' t → S.enabled s e →
    ∃ d, T.enabled t d ∧ g d = f e
  /-- Steps in the same slot keep the relation. -/
  step : ∀ {evs s evs' t e d}, B (evs ++ [e]) → R evs s evs' t → S.enabled s e →
    T.enabled t d → g d = f e → R (evs ++ [e]) (S.effect s e) (evs' ++ [d]) (T.effect t d)

variable {S : System σ ε} {T : System τ δ} {f : ε → κ} {g : δ → κ} {B : List ε → Prop}
  {R : List ε → σ → List δ → τ → Prop} {evs : List ε} {evs' : List δ} {s : σ} {t : τ}

/-- Runs with one schedule are related. -/
theorem Lockstep.related (h : Lockstep S T f g B R) (hS : S.Run evs s) (hT : T.Run evs' t)
    (hsched : evs'.map g = evs.map f) (hB : B evs) : R evs s evs' t := by
  induction hS generalizing evs' t with
  | start hs =>
      cases hT with
      | start ht => exact h.start hs ht
      | next hT hd => simp at hsched
  | next hS he ih =>
      cases hT with
      | start ht => simp at hsched
      | next hT hd =>
          rw [List.map_append, List.map_append] at hsched
          obtain ⟨hsched, hslot⟩ := List.append_inj' hsched rfl
          exact h.step hB (ih hT hsched (h.bound hB)) he hd (List.singleton_inj.mp hslot)

/-- Every run of the first system has a run of the second with its schedule. -/
theorem Lockstep.exists_run (h : Lockstep S T f g B R) (ht : ∃ t, T.init t) (hS : S.Run evs s)
    (hB : B evs) : ∃ evs' t, T.Run evs' t ∧ evs'.map g = evs.map f := by
  induction hS with
  | start hs =>
      obtain ⟨t, ht⟩ := ht
      exact ⟨[], t, .start ht, rfl⟩
  | next hS he ih =>
      obtain ⟨evs', t, hT, hsched⟩ := ih (h.bound hB)
      obtain ⟨d, hd, hslot⟩ :=
        h.follow hB (h.related hS hT hsched (h.bound hB)) he
      exact ⟨evs' ++ [d], _, hT.next hd, by simp [hsched, hslot]⟩

end Transition
