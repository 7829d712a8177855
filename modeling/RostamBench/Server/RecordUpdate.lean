import RostamBench.Server.Handlers
import Mathlib.Algebra.BigOperators.Group.List.Basic

/-!
`aru` as a fold over match results.

A call of `handleAtomicRecordUpdate` decodes the record under its key, folds one
match result into it and writes it back, so a list of calls on one key is a fold
over that list (`callAll_of_ne_nil`). The fold is described without an order:
how many results there were, the greatest streak and the sum of the points
(`IsFold`). Wrap-around addition is addition modulo `2 ^ 64` and the comparison
is the signed one, so both commute, and the order of the calls does not show in
the record they leave.

A record comes out of the first call only. An empty list of calls leaves
whatever was there, and that need not be a record.
-/

namespace RostamBench.Server

open BigEndian CellProg

/-- The payload of one `aru`. -/
structure MatchResult where
  streak : Int64
  points : Int64
  deriving DecidableEq, Repr

/-- `[keyLen u16][key][streak i64][points i64]`. -/
def aruArgs (key : Bytes) (m : MatchResult) : Bytes :=
  stdArgs key (putInt64 m.streak ++ putInt64 m.points)

def callAru (key : Bytes) (m : MatchResult) (cells : Bytes → Option Bytes) :
    (Bytes → Option Bytes) × Response :=
  TxContext.reliable.ops.run (handleAtomicRecordUpdate (aruArgs key m)) cells

/-- The calls one after the other, and what each of them returned. -/
def callAll (key : Bytes) : List MatchResult → (Bytes → Option Bytes) →
    (Bytes → Option Bytes) × List Response
  | [], cells => (cells, [])
  | m :: ms, cells =>
      let (cells', r) := callAru key m cells
      let (cells'', rs) := callAll key ms cells'
      (cells'', r :: rs)

/-! ### One call -/

theorem length_encodeRecord (r : Record) : (encodeRecord r).length = 24 := by
  simp [encodeRecord, length_putInt64]

theorem decodeRecord_encodeRecord (r : Record) : decodeRecord (some (encodeRecord r)) = r := by
  have hgames : getInt64 (encodeRecord r) = r.games := by
    rw [encodeRecord, List.append_assoc]
    exact getInt64_putInt64_append _ _
  have hbest : getInt64 ((encodeRecord r).drop 8) = r.best := by
    rw [encodeRecord, List.append_assoc, List.drop_left' (length_putInt64 _)]
    exact getInt64_putInt64_append _ _
  have hscore : getInt64 ((encodeRecord r).drop 16) = r.score := by
    have hlen : (putInt64 r.games ++ putInt64 r.best).length = 16 := by simp [length_putInt64]
    rw [encodeRecord, List.drop_left' hlen]
    simpa using getInt64_putInt64_append r.score []
  rw [decodeRecord, if_pos (length_encodeRecord r).ge, hgames, hbest, hscore]

/-- Fold a match result into a record. -/
def Record.add (r : Record) (m : MatchResult) : Record := r.fold m.streak m.points

/-- A call writes the folded record and returns it. -/
theorem callAru_eq {key : Bytes} (hkey : key.length < 2 ^ 16) (m : MatchResult)
    (cells : Bytes → Option Bytes) :
    callAru key m cells =
      (Function.update cells key (some (encodeRecord ((decodeRecord (cells key)).add m))),
        .ok (encodeRecord ((decodeRecord (cells key)).add m))) := by
  have hneed : 16 ≤ (putInt64 m.streak ++ putInt64 m.points).length := by
    simp [length_putInt64]
  have hstreak : getInt64 (putInt64 m.streak ++ putInt64 m.points) = m.streak :=
    getInt64_putInt64_append _ _
  have hpoints : getInt64 ((putInt64 m.streak ++ putInt64 m.points).drop 8) = m.points := by
    rw [List.drop_left' (length_putInt64 _)]
    simpa using getInt64_putInt64_append m.points []
  rw [callAru, aruArgs, handleAtomicRecordUpdate, run_updateArgs "aru" _ hkey hneed]
  simp only [hstreak, hpoints]
  rfl

/-! ### A list of calls -/

variable {key : Bytes} {cells : Bytes → Option Bytes}

/-- Whatever was there before, the calls leave the fold of all results. -/
theorem callAll_of_ne_nil (hkey : key.length < 2 ^ 16) {ms : List MatchResult} (hms : ms ≠ []) :
    (callAll key ms cells).1 =
      Function.update cells key
        (some (encodeRecord (ms.foldl Record.add (decodeRecord (cells key))))) := by
  induction ms generalizing cells with
  | nil => exact absurd rfl hms
  | cons m ms ih =>
      rw [callAll, callAru_eq hkey]
      cases ms with
      | nil => rfl
      | cons m' ms =>
          change (callAll key (m' :: ms) _).1 = _
          rw [ih (by simp), Function.update_idem, Function.update_self,
            decodeRecord_encodeRecord]
          rfl

/-- The response of a call in the middle of a list. -/
theorem response_callAll (hkey : key.length < 2 ^ 16) (ms₁ : List MatchResult) (m : MatchResult)
    (ms₂ : List MatchResult) :
    (callAll key (ms₁ ++ m :: ms₂) cells).2[ms₁.length]? =
      some (.ok (encodeRecord ((ms₁ ++ [m]).foldl Record.add (decodeRecord (cells key))))) := by
  induction ms₁ generalizing cells with
  | nil => simp [callAll, callAru_eq hkey]
  | cons m₁ ms₁ ih =>
      rw [List.cons_append, callAll, callAru_eq hkey]
      change (callAll key (ms₁ ++ m :: ms₂) _).2[ms₁.length]? = _
      rw [ih, Function.update_self, decodeRecord_encodeRecord]
      rfl

/-! ### What the fold is -/

/-- `r` holds what `r₀` held and all the results, in no particular order. -/
structure IsFold (r₀ : Record) (ms : List MatchResult) (r : Record) : Prop where
  games : r.games = r₀.games + Int64.ofNat ms.length
  best_mem : r.best ∈ r₀.best :: ms.map MatchResult.streak
  best_max : ∀ x ∈ r₀.best :: ms.map MatchResult.streak, x ≤ r.best
  score : r.score = r₀.score + Int64.ofInt (ms.map fun m => m.points.toInt).sum

/-- The larger of two streaks, under the signed comparison. -/
theorem Record.add_best (r : Record) (m : MatchResult) :
    (r.add m).best ∈ [r.best, m.streak] ∧ r.best ≤ (r.add m).best ∧ m.streak ≤ (r.add m).best := by
  simp only [Record.add, Record.fold]
  split
  · rename_i hlt
    exact ⟨by simp, Int64.le_of_lt hlt, Int64.le_refl _⟩
  · rename_i hlt
    exact ⟨by simp, Int64.le_refl _, Int64.not_lt.mp hlt⟩

theorem isFold_foldl (r₀ : Record) (ms : List MatchResult) :
    IsFold r₀ ms (ms.foldl Record.add r₀) := by
  induction ms generalizing r₀ with
  | nil => exact ⟨by simp, by simp, by simp, by simp⟩
  | cons m ms ih =>
      obtain ⟨hgames, hmem, hmax, hscore⟩ := ih (r₀.add m)
      obtain ⟨hstep, hleft, hright⟩ := r₀.add_best m
      refine ⟨?_, ?_, ?_, ?_⟩
      · rw [List.foldl_cons, hgames, List.length_cons, Nat.add_comm, Int64.ofNat_add,
          ← Int64.add_assoc]
        rfl
      · rw [List.foldl_cons, List.map_cons]
        rcases List.mem_cons.mp hmem with heq | hmem
        · rw [heq]
          rcases List.mem_pair.mp hstep with heq | heq <;> simp [heq]
        · simp [hmem]
      · intro x hx
        have hfirst := hmax _ List.mem_cons_self
        rw [List.map_cons, List.mem_cons, List.mem_cons] at hx
        rcases hx with rfl | rfl | hx
        · exact Int64.le_trans hleft hfirst
        · exact Int64.le_trans hright hfirst
        · exact hmax x (List.mem_cons_of_mem _ hx)
      · rw [List.foldl_cons, hscore, List.map_cons, List.sum_cons, Int64.ofInt_add,
          Int64.ofInt_toInt, ← Int64.add_assoc]
        rfl

/-- A record is determined by what was folded into it. -/
theorem IsFold.unique {r₀ r r' : Record} {ms : List MatchResult} (h : IsFold r₀ ms r)
    (h' : IsFold r₀ ms r') : r = r' := by
  have hbest : r.best = r'.best :=
    Int64.le_antisymm (h'.best_max _ h.best_mem) (h.best_max _ h'.best_mem)
  obtain ⟨games, best, score⟩ := r
  obtain ⟨games', best', score'⟩ := r'
  simp only [Record.mk.injEq]
  exact ⟨h.games.trans h'.games.symm, hbest, h.score.trans h'.score.symm⟩

/-- The results count in any order. -/
theorem IsFold.perm {r₀ r : Record} {ms ms' : List MatchResult} (h : IsFold r₀ ms r)
    (hperm : ms.Perm ms') : IsFold r₀ ms' r := by
  have hstreaks : (r₀.best :: ms.map MatchResult.streak).Perm
      (r₀.best :: ms'.map MatchResult.streak) := (hperm.map _).cons _
  refine ⟨?_, hstreaks.mem_iff.mp h.best_mem, ?_, ?_⟩
  · rw [h.games, hperm.length_eq]
  · intro x hx
    exact h.best_max x (hstreaks.mem_iff.mpr hx)
  · rw [h.score, (hperm.map _).sum_eq]

/-! ### The record the calls leave -/

/-- The calls leave a record of 24 bytes with everything folded into it. -/
def LeavesFold (key : Bytes) (cells : Bytes → Option Bytes) (ms : List MatchResult) : Prop :=
  ∃ v, (callAll key ms cells).1 key = some v ∧ v.length = 24 ∧
    IsFold (decodeRecord (cells key)) ms (decodeRecord (some v))

/-- One call or more leave a record with everything folded into it, and none
leave the cache alone; each call returns what it has just stored; and the calls
may come in any order. -/
theorem atomic_update_is_fold (hkey : key.length < 2 ^ 16) (cells : Bytes → Option Bytes)
    (ms : List MatchResult) :
    (ms ≠ [] → LeavesFold key cells ms) ∧
    (ms = [] → (callAll key ms cells).1 = cells) ∧
    (∀ ms₁ m ms₂, ms = ms₁ ++ m :: ms₂ →
      ∃ v, (callAll key (ms₁ ++ [m]) cells).1 key = some v ∧
        (callAll key ms cells).2[ms₁.length]? = some (.ok v)) ∧
    ∀ ms', ms.Perm ms' → (callAll key ms' cells).1 = (callAll key ms cells).1 := by
  refine ⟨?_, ?_, ?_, ?_⟩
  · intro hms
    refine ⟨_, ?_, length_encodeRecord (ms.foldl Record.add (decodeRecord (cells key))), ?_⟩
    · rw [callAll_of_ne_nil hkey hms, Function.update_self]
    · rw [decodeRecord_encodeRecord]
      exact isFold_foldl _ ms
  · rintro rfl
    rfl
  · rintro ms₁ m ms₂ rfl
    refine ⟨_, ?_, response_callAll hkey ms₁ m ms₂⟩
    rw [callAll_of_ne_nil hkey (by simp), Function.update_self]
  · intro ms' hperm
    by_cases hms : ms = []
    · subst hms
      rw [List.nil_perm.mp hperm]
    · have hms' : ms' ≠ [] := fun h => hms (List.perm_nil.mp (h ▸ hperm))
      rw [callAll_of_ne_nil hkey hms, callAll_of_ne_nil hkey hms',
        ((isFold_foldl _ ms).perm hperm).unique (isFold_foldl _ ms')]

/-- Two results on a value that is too short to be a record; the second one
wraps. -/
theorem atomic_update_is_fold_two :
    LeavesFold [7] (fun _ => some [1, 2, 3])
      [{ streak := -5, points := 1 }, { streak := 4, points := 2 ^ 63 - 1 }] :=
  (atomic_update_is_fold (by decide) (fun _ => some [1, 2, 3])
    [{ streak := -5, points := 1 }, { streak := 4, points := 2 ^ 63 - 1 }]).1 (by simp)

/-- No call at all leaves an absent key absent. -/
theorem no_update_leaves_no_record :
    ¬ ∀ (key : Bytes) (cells : Bytes → Option Bytes) (ms : List MatchResult),
      key.length < 2 ^ 16 → LeavesFold key cells ms := by
  intro hall
  obtain ⟨v, hv, _⟩ := hall [7] (fun _ => none) [] (by decide)
  cases hv

end RostamBench.Server
