import Mathlib.Data.List.Infix
import Mathlib.Data.Nat.Find

/-!
Text as a list of characters: finding and replacing.

`replaceFirst` is Python's `s.replace(old, new, 1)` and `find` its `s.find`. What a
replacement does needs no more than some place where `old` stands
(`replaceFirst_of_present`). A pattern that cannot reach across a place in the text
stands on one side of it (`infix_append_of_not_mem`), so an insertion there neither
makes nor breaks an occurrence.
-/

namespace Text

variable {α : Type*} [DecidableEq α] {s pat old new : List α}

theorem exists_dropInfix? (h : pat <:+: s) : ∃ a b, s.dropInfix? pat = some (a, b) := by
  classical
  have hocc : ∃ n, ∃ a b, s = a ++ pat ++ b ∧ a.length = n := by
    obtain ⟨a, b, hs⟩ := h
    exact ⟨a.length, a, b, hs.symm, rfl⟩
  obtain ⟨a, b, hs, hlen⟩ := Nat.find_spec hocc
  refine ⟨a, b, List.dropInfix?_eq_some_iff.mpr ⟨⟨pat, hs, beq_self_eq_true pat⟩, ?_⟩⟩
  intro a' pat' b' hs' hpat
  obtain rfl := eq_of_beq hpat
  rw [hlen]
  exact Nat.find_min' hocc ⟨a', b', hs', rfl⟩

theorem eq_of_dropInfix? {a b : List α} (h : s.dropInfix? pat = some (a, b)) :
    s = a ++ pat ++ b := by
  obtain ⟨⟨pat', hs, hpat⟩, -⟩ := List.dropInfix?_eq_some_iff.mp h
  rwa [eq_of_beq hpat] at hs

/-- `s.replace(old, new, 1)`. -/
def replaceFirst (old new s : List α) : List α :=
  match s.dropInfix? old with
  | none => s
  | some (a, b) => a ++ new ++ b

theorem replaceFirst_of_absent (h : ¬ old <:+: s) : replaceFirst old new s = s := by
  rw [replaceFirst]
  split
  · rfl
  · rename_i a b heq
    exact absurd ⟨a, b, (eq_of_dropInfix? heq).symm⟩ h

theorem replaceFirst_of_present (new : List α) (h : old <:+: s) :
    ∃ a b, s = a ++ old ++ b ∧ replaceFirst old new s = a ++ new ++ b := by
  obtain ⟨a, b, heq⟩ := exists_dropInfix? h
  refine ⟨a, b, eq_of_dropInfix? heq, ?_⟩
  rw [replaceFirst, heq]

theorem infix_replaceFirst (h : old <:+: s) : new <:+: replaceFirst old new s := by
  obtain ⟨a, b, -, heq⟩ := replaceFirst_of_present new h
  exact ⟨a, b, heq.symm⟩

theorem length_le_length_replaceFirst (h : old.length ≤ new.length) :
    s.length ≤ (replaceFirst old new s).length := by
  by_cases hpresent : old <:+: s
  · obtain ⟨a, b, hs, heq⟩ := replaceFirst_of_present new hpresent
    rw [heq, hs]
    simp only [List.length_append]
    omega
  · rw [replaceFirst_of_absent hpresent]

theorem length_lt_length_replaceFirst (h : old.length < new.length) (hpresent : old <:+: s) :
    s.length < (replaceFirst old new s).length := by
  obtain ⟨a, b, hs, heq⟩ := replaceFirst_of_present new hpresent
  rw [heq, hs]
  simp only [List.length_append]
  omega

/-- What a replacement holds comes from the text or from the new part. -/
theorem mem_replaceFirst {c : α} (h : c ∈ replaceFirst old new s) : c ∈ s ∨ c ∈ new := by
  by_cases hpresent : old <:+: s
  · obtain ⟨a, b, hs, heq⟩ := replaceFirst_of_present new hpresent
    rw [heq] at h
    rw [hs]
    simp only [List.mem_append] at h ⊢
    tauto
  · rw [replaceFirst_of_absent hpresent] at h
    exact Or.inl h

/-- `s.find(pat, start)`, where a negative start counts from the end and `-1` is not
found. -/
def find (s pat : List α) (start : ℤ) : ℤ :=
  let k := if start < 0 then (s.length + start).toNat else start.toNat
  match (s.drop k).dropInfix? pat with
  | none => -1
  | some (a, _) => k + a.length

/-! ### Occurrences across a place -/

section Insertion

omit [DecidableEq α]

variable {c d : α} {u v : List α}

/-- A text that ends with `c` and `d` keeps a pattern on one side that has no `c` and
does not begin with `d`. -/
theorem infix_append_of_not_mem (hc : c ∉ pat) (hd : pat.head? ≠ some d) (hu : [c, d] <:+ u)
    (h : pat <:+: u ++ v) : pat <:+: u ∨ pat <:+: v := by
  rcases List.infix_append_iff_ne_nil.mp h with h | h | ⟨p, q, hp, -, rfl, hpu, -⟩
  · exact Or.inl h
  · exact Or.inr h
  · have hcp : c ∉ p := fun hmem => hc (List.mem_append_left q hmem)
    rcases List.suffix_or_suffix_of_suffix hpu hu with hsuffix | hsuffix
    · -- Of the parts of `[c, d]` only `[d]` is left.
      rcases List.suffix_cons_iff.mp hsuffix with rfl | hsuffix
      · simp at hcp
      · rcases List.suffix_cons_iff.mp hsuffix with rfl | hsuffix
        · simp at hd
        · exact absurd (List.suffix_nil.mp hsuffix) hp
    · exact absurd (hsuffix.subset List.mem_cons_self) hcp

/-- A text inserted at such a place neither makes nor breaks an occurrence of the
pattern, if the place is there again after it. -/
theorem infix_insert_iff {ins a b : List α} (hc : c ∉ pat) (hd : pat.head? ≠ some d)
    (hu : [c, d] <:+ u) (hins : [c, d] <:+ ins) (hpat : ¬ pat <:+: ins) :
    pat <:+: a ++ (u ++ ins) ++ b ↔ pat <:+: a ++ u ++ b := by
  have hsuffix : [c, d] <:+ a ++ u := hu.trans (List.suffix_append a u)
  have hassoc : a ++ (u ++ ins) ++ b = (a ++ u) ++ (ins ++ b) := by
    simp only [List.append_assoc]
  rw [hassoc]
  constructor
  · intro h
    rcases infix_append_of_not_mem hc hd hsuffix h with h | h
    · exact List.infix_append_of_infix_left h
    · rcases infix_append_of_not_mem hc hd hins h with h | h
      · exact absurd h hpat
      · exact List.infix_append_of_infix_right h
  · intro h
    rcases infix_append_of_not_mem hc hd hsuffix h with h | h
    · exact List.infix_append_of_infix_left h
    · exact List.infix_append_of_infix_right (List.infix_append_of_infix_right h)

end Insertion

/-! ### Reading a file -/

/-- A file opened in text mode: every kind of line end reads as `'\n'`. -/
def readText : List Char → List Char
  | [] => []
  | '\r' :: '\n' :: s => '\n' :: readText s
  | '\r' :: s => '\n' :: readText s
  | c :: s => c :: readText s

theorem readText_of_not_mem {s : List Char} (h : '\r' ∉ s) : readText s = s := by
  fun_induction readText s with
  | case1 => rfl
  | case2 s ih => simp at h
  | case3 s hs ih => simp at h
  | case4 c s h1 h2 ih =>
      rw [ih fun hmem => h (List.mem_cons_of_mem _ hmem)]

theorem not_mem_readText (s : List Char) : '\r' ∉ readText s := by
  fun_induction readText s with
  | case1 => simp
  | case2 s ih => simp [ih]
  | case3 s hs ih => simp [ih]
  | case4 c s h1 h2 ih =>
      simp only [List.mem_cons, not_or]
      exact ⟨fun hc => h2 hc.symm, ih⟩

end Text
