import RostamBench.Lib.Awk
import Mathlib.Data.List.DropRight

/-!
What `bash` does with the output of a command.

`substitute` is `$(...)`, which drops the line ends at the end of an output and no
others. `word` is a variable of `IFS=$'\t' read -r`: a tab is white space, so tabs next to
each other separate once and an empty column is not seen. `integer` is a number as
`[ a -gt b ]` reads it.
-/

namespace Shell

open Awk (isBlank records)

/-- `$(...)`. -/
def substitute (out : List Char) : List Char := out.rdropWhile (· == '\n')

/-- The lines of a text with their line ends. -/
def unlines (lines : List (List Char)) : List Char := lines.flatMap fun line => line ++ ['\n']

/-- The variable number `i`, from `0`, of a `read` with more variables than that. -/
def word (sep : Char) (input : List Char) (i : ℕ) : List Char :=
  (((input.takeWhile (· ≠ '\n')).splitOn sep).filter (· ≠ [])).getD i []

/-- The sign of a number, and what follows it. -/
def sign : List Char → ℤ × List Char
  | '-' :: t => (-1, t)
  | '+' :: t => (1, t)
  | t => (1, t)

/-- A number of `[`: blanks and a sign may stand before it and blanks behind it, and it has
63 bits. -/
def integer (s : List Char) : Option ℤ :=
  let t := (sign (s.dropWhile isBlank)).2
  let n := (sign (s.dropWhile isBlank)).1 * Nat.ofDigitChars 10 (t.takeWhile Char.isDigit) 0
  if t.takeWhile Char.isDigit = [] ∨ (t.dropWhile Char.isDigit).dropWhile isBlank ≠ [] then none
  else if -2 ^ 63 ≤ n ∧ n < 2 ^ 63 then some n
  else none

/-- `[ s -gt 0 ]`; a text that is no number is an error, which is not a yes. -/
def gtZero (s : List Char) : Bool :=
  match integer s with
  | some n => decide (0 < n)
  | none => false

/-! ### Command substitution -/

variable {s line : List Char} {lines : List (List Char)}

theorem substitute_append_newline (s : List Char) : substitute (s ++ ['\n']) = substitute s :=
  List.rdropWhile_concat_pos _ _ '\n' (by decide)

theorem substitute_of_getLast? (h : s.getLast? ≠ some '\n') : substitute s = s := by
  apply List.rdropWhile_eq_self_iff.mpr
  intro hne hlast
  rw [List.getLast?_eq_some_getLast hne, beq_iff_eq.mp hlast] at h
  exact h rfl

theorem substitute_eq_nil_iff : substitute s = [] ↔ ∀ c ∈ s, c = '\n' := by
  simp [substitute]

/-- The lines with something in them are the same. -/
theorem mem_splitOn_substitute (hline : line ≠ []) :
    line ∈ (substitute s).splitOn '\n' ↔ line ∈ s.splitOn '\n' := by
  induction s using List.reverseRecOn with
  | nil => rfl
  | append_singleton s c ih =>
      by_cases hc : c = '\n'
      · subst hc
        rw [substitute_append_newline, ih, List.splitOn_append_cons_self]
        simp [hline]
      · rw [substitute_of_getLast? (by simp [hc])]

theorem mem_records (hline : line ≠ []) : line ∈ records s ↔ line ∈ s.splitOn '\n' := by
  rw [records]
  split
  · rename_i hlast
    obtain ⟨ls, hls⟩ := List.getLast?_eq_some_iff.mp hlast
    rw [hls, List.dropLast_concat, List.mem_append, List.mem_singleton]
    simp [hline]
  · rfl

/-- An output of lines comes through, but for an empty one at its end. -/
theorem records_substitute_unlines (hlines : ∀ l ∈ lines, '\n' ∉ l)
    (hlast : lines.getLast? ≠ some []) :
    records (substitute (unlines lines) ++ ['\n']) = if lines = [] then [[]] else lines := by
  rcases List.eq_nil_or_concat' lines with rfl | ⟨ls, l, rfl⟩
  · rfl
  · have hl : l ≠ [] := by
      rintro rfl
      simp at hlast
    have hend : (unlines ls ++ l).getLast? ≠ some '\n' := by
      rw [List.getLast?_append_of_ne_nil _ hl]
      intro heq
      exact hlines l (by simp) (List.mem_of_getLast? heq)
    have htext : unlines (ls ++ [l]) = unlines ls ++ l ++ ['\n'] := by simp [unlines]
    rw [htext, substitute_append_newline, substitute_of_getLast? hend, ← htext, if_neg (by simp)]
    exact Awk.records_flatMap hlines

/-- Nothing is left of an output of empty lines. -/
theorem substitute_unlines_eq_nil_iff (hlines : ∀ l ∈ lines, '\n' ∉ l) :
    substitute (unlines lines) = [] ↔ ∀ l ∈ lines, l = [] := by
  rw [substitute_eq_nil_iff]
  constructor
  · intro h l hl
    apply List.eq_nil_iff_forall_not_mem.mpr
    intro c hc
    have hnewline : c = '\n' := h c (List.mem_flatMap.mpr ⟨l, hl, List.mem_append_left _ hc⟩)
    rw [hnewline] at hc
    exact hlines l hl hc
  · intro h c hc
    obtain ⟨l, hl, hc⟩ := List.mem_flatMap.mp hc
    rw [h l hl] at hc
    simpa using hc

/-! ### Reading a line -/

theorem sep_of_mem_splitOnP {α : Type*} {p : α → Bool} {xs piece : List α} {x : α}
    (hpiece : piece ∈ xs.splitOnP p) (hx : x ∈ piece) : p x = false := by
  induction xs generalizing piece with
  | nil =>
      rw [List.splitOnP_nil, List.mem_singleton] at hpiece
      simp [hpiece] at hx
  | cons y xs ih =>
      rw [List.splitOnP_cons_eq_if_modifyHead] at hpiece
      split at hpiece
      · rcases List.mem_cons.mp hpiece with rfl | hpiece
        · simp at hx
        · exact ih hpiece hx
      · rename_i hy
        obtain ⟨t, ts, hts⟩ := List.exists_cons_of_ne_nil (List.splitOnP_ne_nil p xs)
        rw [hts, List.modifyHead_cons] at hpiece
        rcases List.mem_cons.mp hpiece with rfl | hpiece
        · rcases List.mem_cons.mp hx with rfl | hx
          · simpa using hy
          · exact ih (by rw [hts]; exact List.mem_cons_self) hx
        · exact ih (by rw [hts]; exact List.mem_cons_of_mem _ hpiece) hx

theorem isBlank_of_mem_fields {tok : List Char} {c : Char} (htok : tok ∈ Awk.fields s)
    (hc : c ∈ tok) : isBlank c = false :=
  sep_of_mem_splitOnP (List.mem_of_mem_filter htok) hc

/-- Columns that are not empty are read one by one. -/
theorem word_intercalate {sep : Char} {columns : List (List Char)} (hne : columns ≠ [])
    (hcolumns : ∀ c ∈ columns, sep ∉ c ∧ '\n' ∉ c ∧ c ≠ [])
    (hline : '\n' ∉ [sep].intercalate columns) (i : ℕ) :
    word sep ([sep].intercalate columns) i = columns.getD i [] := by
  have htake : ([sep].intercalate columns).takeWhile (· ≠ '\n') = [sep].intercalate columns := by
    apply List.takeWhile_eq_self_iff.mpr
    intro c hc
    simpa using fun heq : c = '\n' => hline (heq ▸ hc)
  rw [word, htake, List.splitOn_intercalate _ (fun c hc => (hcolumns c hc).1) hne]
  congr 1
  apply List.filter_eq_self.mpr
  intro c hc
  simpa using (hcolumns c hc).2.2

/-- A number that was written in decimal is read, if it has 63 bits. -/
theorem gtZero_toDigits (n : ℕ) :
    gtZero (Nat.toDigits 10 n) = (decide (n < 2 ^ 63) && decide (0 < n)) := by
  have hdigits : ∀ c ∈ Nat.toDigits 10 n, c.isDigit = true := fun c hc =>
    Nat.isDigit_of_mem_toDigits (by decide) (by decide) hc
  have hne : Nat.toDigits 10 n ≠ [] := Nat.toDigits_ne_nil
  have htake : (Nat.toDigits 10 n).takeWhile Char.isDigit = Nat.toDigits 10 n :=
    List.takeWhile_eq_self_iff.mpr hdigits
  have hdrop : (Nat.toDigits 10 n).dropWhile Char.isDigit = [] :=
    List.dropWhile_eq_nil_iff.mpr hdigits
  obtain ⟨c, cs, hcs⟩ := List.exists_cons_of_ne_nil hne
  have hother {d : Char} (hd : d.isDigit = false) : c ≠ d := by
    rintro rfl
    have hc := hdigits c (by rw [hcs]; exact List.mem_cons_self)
    rw [hd] at hc
    cases hc
  have hskip : (Nat.toDigits 10 n).dropWhile isBlank = Nat.toDigits 10 n := by
    have hblank : isBlank c = false := by
      simp [isBlank, hother (show ' '.isDigit = false by decide),
        hother (show '\t'.isDigit = false by decide), hother (show '\n'.isDigit = false by decide)]
    rw [hcs, List.dropWhile_cons_of_neg (by simp [hblank])]
  have hsign : sign (Nat.toDigits 10 n) = (1, Nat.toDigits 10 n) := by
    rw [hcs, sign]
    · rintro t heq
      exact hother (by decide) (List.cons.inj heq).1
    · rintro t heq
      exact hother (by decide) (List.cons.inj heq).1
  have hinteger : integer (Nat.toDigits 10 n) = if n < 2 ^ 63 then some (n : ℤ) else none := by
    rw [integer, hskip, hsign]
    dsimp only
    rw [htake, hdrop, Nat.ofDigitChars_ten_toDigits, if_neg (by simp [hne]), Int.one_mul]
    by_cases hlt : n < 2 ^ 63
    · rw [if_pos hlt, if_pos (by omega)]
    · rw [if_neg hlt, if_neg (by omega)]
  rw [gtZero, hinteger]
  by_cases hlt : n < 2 ^ 63
  · rw [if_pos hlt, decide_eq_true hlt]
    simp
  · rw [if_neg hlt, decide_eq_false hlt]
    rfl

end Shell
