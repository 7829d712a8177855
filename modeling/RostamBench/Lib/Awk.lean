import Mathlib.Data.List.Infix
import Mathlib.Data.List.TakeWhile
import Mathlib.Logic.Function.Basic
import Mathlib.Algebra.Field.Rat
import Mathlib.Algebra.Order.Sub.Basic

/-!
Lines of text as `printf` writes them and as `awk` reads them.

`padLeft` and `padRight` are the widths of a format. `records` and `fields` are how
`awk` cuts a file into lines and a line into words, and `squeeze` is
`gsub(/= +/,"=")`, which glues a padded value to its key.

`Shows shown tok` says that a piece of a line is seen as the one word `tok`, whatever
follows it. A line made of such pieces with blanks between them has exactly their
words (`fields_shows`).
-/

namespace Awk

def blanks (n : ℕ) : List Char := List.replicate n ' '

/-- `%*s` and `%*d`. -/
def padLeft (width : ℕ) (s : List Char) : List Char := blanks (width - s.length) ++ s

/-- `%-*s` and `%-*d`. -/
def padRight (width : ℕ) (s : List Char) : List Char := s ++ blanks (width - s.length)

/-- The lines of a file; what follows the last line end is a line if there is
something. -/
def records (text : List Char) : List (List Char) :=
  let lines := text.splitOn '\n'
  if lines.getLast? = some [] then lines.dropLast else lines

/-- `gsub(/= +/,"=",s)`; the flag is set just after a `=`. -/
def squeeze : Bool → List Char → List Char
  | _, [] => []
  | afterEq, c :: s =>
      if afterEq = true ∧ c = ' ' then squeeze true s else c :: squeeze (c == '=') s

def isBlank (c : Char) : Bool := c = ' ' ∨ c = '\t' ∨ c = '\n'

/-- `split(s,F," ")`. -/
def fields (s : List Char) : List (List Char) := (s.splitOnP isBlank).filter (· ≠ [])

/-! ### Numbers -/

/-- The digits after a point. -/
def fraction : List Char → List Char × List Char
  | '.' :: s => (s.takeWhile Char.isDigit, s.dropWhile Char.isDigit)
  | s => ([], s)

/-- The exponent, if there is one. -/
def exponent : List Char → ℤ × List Char
  | [] => (0, [])
  | e :: s =>
      let (sign, t) : ℤ × List Char :=
        match s with
        | '-' :: t => (-1, t)
        | '+' :: t => (1, t)
        | t => (1, t)
      let digits := t.takeWhile Char.isDigit
      if (e = 'e' ∨ e = 'E') ∧ digits ≠ [] then
        (sign * Nat.ofDigitChars 10 digits 0, t.dropWhile Char.isDigit)
      else (0, e :: s)

def unsigned (s : List Char) : Option (ℚ × List Char) :=
  let whole := s.takeWhile Char.isDigit
  let (frac, rest) := fraction (s.dropWhile Char.isDigit)
  if whole = [] ∧ frac = [] then none
  else
    let (exp, rest) := exponent rest
    some ((Nat.ofDigitChars 10 (whole ++ frac) 0 : ℚ) / 10 ^ frac.length * 10 ^ exp, rest)

/-- `strtod`: the number a text begins with, and what follows it. -/
def strtod (s : List Char) : Option (ℚ × List Char) :=
  match s.dropWhile isBlank with
  | '-' :: t => (unsigned t).map fun (x, rest) => (-x, rest)
  | '+' :: t => unsigned t
  | t => unsigned t

/-- The value of a text as a number. -/
def num (s : List Char) : ℚ := ((strtod s).map Prod.fst).getD 0

/-- A field that is a number is compared as one. -/
def looksNumeric (s : List Char) : Bool :=
  match strtod s with
  | some (_, rest) => rest.all isBlank
  | none => false

/-- A natural number is read back as it was written. -/
theorem strtod_toDigits (n : ℕ) : strtod (Nat.toDigits 10 n) = some ((n : ℚ), []) := by
  have hdigits : ∀ c ∈ Nat.toDigits 10 n, c.isDigit = true := fun c hc =>
    Nat.isDigit_of_mem_toDigits (by decide) (by decide) hc
  have hne : Nat.toDigits 10 n ≠ [] := Nat.toDigits_ne_nil
  have hunsigned : unsigned (Nat.toDigits 10 n) = some ((n : ℚ), []) := by
    have htake : (Nat.toDigits 10 n).takeWhile Char.isDigit = Nat.toDigits 10 n :=
      List.takeWhile_eq_self_iff.mpr hdigits
    have hdrop : (Nat.toDigits 10 n).dropWhile Char.isDigit = [] :=
      List.dropWhile_eq_nil_iff.mpr hdigits
    simp [unsigned, htake, hdrop, fraction, exponent, hne, Nat.ofDigitChars_ten_toDigits]
  obtain ⟨c, cs, hcs⟩ := List.exists_cons_of_ne_nil hne
  have hother {d : Char} (hd : d.isDigit = false) : c ≠ d := by
    rintro rfl
    have hc := hdigits c (by rw [hcs]; exact List.mem_cons_self)
    rw [hd] at hc
    cases hc
  have hblank : isBlank c = false := by
    simp [isBlank, hother (show ' '.isDigit = false by decide),
      hother (show '\t'.isDigit = false by decide), hother (show '\n'.isDigit = false by decide)]
  have hskip : (Nat.toDigits 10 n).dropWhile isBlank = c :: cs := by
    rw [hcs, List.dropWhile_cons_of_neg (by simp [hblank])]
  rw [strtod, hskip]
  split
  · rename_i heq
    exact absurd (List.cons.inj heq).1 (hother (by decide))
  · rename_i heq
    exact absurd (List.cons.inj heq).1 (hother (by decide))
  · rw [← hcs, hunsigned]

theorem num_toDigits (n : ℕ) : num (Nat.toDigits 10 n) = n := by
  rw [num, strtod_toDigits]
  rfl

theorem looksNumeric_toDigits (n : ℕ) : looksNumeric (Nat.toDigits 10 n) = true := by
  rw [looksNumeric, strtod_toDigits]
  rfl

/-! ### Lines -/

/-- The lines that were written are the lines that are read. -/
theorem records_flatMap {lines : List (List Char)} (h : ∀ line ∈ lines, '\n' ∉ line) :
    records (lines.flatMap fun line => line ++ ['\n']) = lines := by
  have hsplit : (lines.flatMap fun line => line ++ ['\n']).splitOn '\n' = lines ++ [[]] := by
    induction lines with
    | nil => rfl
    | cons line lines ih =>
        obtain ⟨hline, hlines⟩ := List.forall_mem_cons.mp h
        rw [List.flatMap_cons, List.append_assoc, List.singleton_append,
          List.splitOn_append_cons_self, List.splitOn_eq_singleton hline, ih hlines]
        rfl
  rw [records]
  simp only [hsplit]
  simp

/-! ### Squeezing -/

theorem squeeze_append_of_not_mem {a : List Char} (h : '=' ∉ a) (b : List Char) :
    squeeze false (a ++ b) = a ++ squeeze false b := by
  induction a with
  | nil => rfl
  | cons c a ih =>
      obtain ⟨hc, ha⟩ := List.ne_and_not_mem_of_not_mem_cons h
      have heq : (c == '=') = false := beq_eq_false_iff_ne.mpr (Ne.symm hc)
      rw [List.cons_append, squeeze, if_neg (by simp), heq, ih ha, List.cons_append]

theorem squeeze_blanks (n : ℕ) (b : List Char) :
    squeeze true (blanks n ++ b) = squeeze true b := by
  induction n with
  | zero => rfl
  | succ n ih =>
      rw [blanks, List.replicate_succ, List.cons_append, squeeze, if_pos ⟨rfl, rfl⟩]
      exact ih

/-- A value is glued to its key. -/
theorem squeeze_field {key val : List Char} (n : ℕ) (hkey : '=' ∉ key) (hval : '=' ∉ val)
    (hhead : val.head? ≠ some ' ') (hne : val ≠ []) (b : List Char) :
    squeeze false (key ++ '=' :: (blanks n ++ (val ++ b))) =
      key ++ '=' :: (val ++ squeeze false b) := by
  rw [squeeze_append_of_not_mem hkey, squeeze, if_neg (by simp), beq_self_eq_true,
    squeeze_blanks]
  cases val with
  | nil => exact absurd rfl hne
  | cons c val =>
      obtain ⟨hc, hval⟩ := List.ne_and_not_mem_of_not_mem_cons hval
      have hblank : c ≠ ' ' := by simpa using hhead
      have heq : (c == '=') = false := beq_eq_false_iff_ne.mpr (Ne.symm hc)
      rw [List.cons_append, squeeze, if_neg (by simp [hblank]), heq,
        squeeze_append_of_not_mem hval, List.cons_append]

theorem squeeze_of_not_mem {a : List Char} (h : '=' ∉ a) : squeeze false a = a := by
  have happend := squeeze_append_of_not_mem h []
  rwa [List.append_nil, squeeze, List.append_nil] at happend

/-! ### Words -/

theorem fields_blank (s : List Char) : fields (' ' :: s) = fields s := by
  rw [fields, List.splitOnP_cons_eq_if_modifyHead, if_pos (by decide)]
  rfl

theorem fields_blanks (n : ℕ) (s : List Char) : fields (blanks n ++ s) = fields s := by
  induction n with
  | zero => rfl
  | succ n ih =>
      rw [blanks, List.replicate_succ, List.cons_append, fields_blank]
      exact ih

theorem fields_token {tok : List Char} (hne : tok ≠ []) (h : ∀ c ∈ tok, isBlank c = false)
    (s : List Char) : fields (tok ++ ' ' :: s) = tok :: fields s := by
  rw [fields, List.splitOnP_append_cons_of_forall_mem h ' ' (by decide),
    List.filter_cons_of_pos (by simpa using hne), fields]

/-- A word has its characters from the line. -/
theorem mem_of_mem_fields {s tok : List Char} {c : Char} (htok : tok ∈ fields s) (hc : c ∈ tok) :
    c ∈ s := by
  have hmem : ∀ (s tok : List Char), tok ∈ s.splitOnP isBlank → c ∈ tok → c ∈ s := by
    intro s
    induction s with
    | nil =>
        intro tok htok hc
        simp only [List.splitOnP_nil, List.mem_singleton] at htok
        simp [htok] at hc
    | cons d s ih =>
        intro tok htok hc
        rw [List.splitOnP_cons_eq_if_modifyHead] at htok
        split at htok
        · rcases List.mem_cons.mp htok with rfl | htok
          · simp at hc
          · exact List.mem_cons_of_mem _ (ih tok htok hc)
        · obtain ⟨t, ts, hts⟩ := List.exists_cons_of_ne_nil (List.splitOnP_ne_nil isBlank s)
          rw [hts, List.modifyHead_cons] at htok
          rcases List.mem_cons.mp htok with rfl | htok
          · rcases List.mem_cons.mp hc with rfl | hc
            · exact List.mem_cons_self
            · exact List.mem_cons_of_mem _ (ih t (by rw [hts]; exact List.mem_cons_self) hc)
          · exact List.mem_cons_of_mem _
              (ih tok (by rw [hts]; exact List.mem_cons_of_mem _ htok) hc)
  exact hmem s tok (List.mem_of_mem_filter htok) hc

/-! ### Pieces of a line -/

/-- A piece of a line that is seen as one word. -/
structure Shows (shown tok : List Char) : Prop where
  ne_nil : tok ≠ []
  no_blank : ∀ c ∈ tok, isBlank c = false
  squeeze : ∀ b, Awk.squeeze false (shown ++ b) = tok ++ Awk.squeeze false b

/-- A word without `=`. -/
theorem Shows.word {tok : List Char} (hne : tok ≠ []) (hblank : ∀ c ∈ tok, isBlank c = false)
    (heq : '=' ∉ tok) : Shows tok tok :=
  ⟨hne, hblank, fun b => squeeze_append_of_not_mem heq b⟩

/-- A key with a value that may be padded on the left. -/
theorem Shows.field {key val : List Char} (n : ℕ) (hkey : '=' ∉ key)
    (hkeyBlank : ∀ c ∈ key, isBlank c = false) (hne : val ≠ [])
    (hvalBlank : ∀ c ∈ val, isBlank c = false) (hval : '=' ∉ val) :
    Shows (key ++ '=' :: (blanks n ++ val)) (key ++ '=' :: val) where
  ne_nil := by simp
  no_blank := by
    intro c hc
    rcases List.mem_append.mp hc with hc | hc
    · exact hkeyBlank c hc
    · rcases List.mem_cons.mp hc with rfl | hc
      · decide
      · exact hvalBlank c hc
  squeeze := by
    intro b
    have hhead : val.head? ≠ some ' ' := by
      intro hhead
      have hblank := hvalBlank ' ' (List.mem_of_mem_head? hhead)
      exact absurd hblank (by decide)
    have hsqueeze := squeeze_field n hkey hval hhead hne b
    simpa only [List.append_assoc, List.cons_append] using hsqueeze

theorem blanks_append (m n : ℕ) (s : List Char) :
    blanks m ++ (blanks n ++ s) = blanks (m + n) ++ s := by
  rw [← List.append_assoc, blanks, blanks, List.replicate_append_replicate, blanks]

theorem squeeze_false_blanks (n : ℕ) (s : List Char) :
    squeeze false (blanks n ++ s) = blanks n ++ squeeze false s := by
  apply squeeze_append_of_not_mem
  intro hmem
  exact absurd (List.eq_of_mem_replicate hmem) (by decide)

/-- A piece and the blanks behind it give one word. -/
theorem fields_shows {shown tok : List Char} (h : Shows shown tok) (n : ℕ) (s : List Char) :
    fields (squeeze false (shown ++ (blanks (n + 1) ++ s))) = tok :: fields (squeeze false s) := by
  rw [h.squeeze, squeeze_false_blanks, blanks, List.replicate_succ, List.cons_append,
    fields_token h.ne_nil h.no_blank]
  exact congrArg (tok :: ·) (fields_blanks n _)

end Awk
