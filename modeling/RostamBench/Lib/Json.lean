import Mathlib.Data.List.Basic
import Mathlib.Data.Int.Basic

/-!
JSON texts: a writer in the format of Python's `json.dumps`, and a reader.

The values are those of JSON with integers for numbers (`Value`). The writer
escapes everything outside printable ASCII, as `ensure_ascii` does, with a pair
of surrogates beyond the basic plane, and takes the blank it puts after `,` and
`:` as a parameter: one space by default, none in a compact text. The reader
follows the grammar: blanks between tokens, all escapes, no leading zeros, no
lone surrogate.

The one result is the round trip `read_dumps`, reading what was written gives the
value back, and its version for the bytes of the text, `loads_encode_dumps`.
-/

namespace Json

/-- JSON values; the members of an object keep their order. -/
inductive Value
  | null
  | bool (b : Bool)
  | int (n : ℤ)
  | str (s : String)
  | arr (items : List Value)
  | obj (members : List (String × Value))
  deriving Repr

/-! ### Characters of a string -/

def hexDigit (n : ℕ) : Char := "0123456789abcdef".toList.getD n '0'

def hexVal (c : Char) : Option ℕ :=
  if '0' ≤ c ∧ c ≤ '9' then some (c.toNat - '0'.toNat)
  else if 'a' ≤ c ∧ c ≤ 'f' then some (c.toNat - 'a'.toNat + 10)
  else if 'A' ≤ c ∧ c ≤ 'F' then some (c.toNat - 'A'.toNat + 10)
  else none

/-- `\uXXXX`. -/
def unicodeEscape (n : ℕ) : List Char :=
  ['\\', 'u', hexDigit (n / 0x1000 % 16), hexDigit (n / 0x100 % 16), hexDigit (n / 0x10 % 16),
    hexDigit (n % 16)]

/-- A character as `json.dumps` writes it inside a string. -/
def escapeChar (c : Char) : List Char :=
  if c = '"' then ['\\', '"']
  else if c = '\\' then ['\\', '\\']
  else if c = '\n' then ['\\', 'n']
  else if c = '\r' then ['\\', 'r']
  else if c = '\t' then ['\\', 't']
  else if c = '\x08' then ['\\', 'b']
  else if c = '\x0c' then ['\\', 'f']
  else if 0x20 ≤ c.toNat ∧ c.toNat ≤ 0x7e then [c]
  else if c.toNat < 0x10000 then unicodeEscape c.toNat
  else
    let n := c.toNat - 0x10000
    unicodeEscape (0xd800 + n / 0x400) ++ unicodeEscape (0xdc00 + n % 0x400)

def readHex4 : List Char → Option (ℕ × List Char)
  | a :: b :: c :: d :: cs => do
      let a ← hexVal a
      let b ← hexVal b
      let c ← hexVal c
      let d ← hexVal d
      some (((a * 16 + b) * 16 + c) * 16 + d, cs)
  | _ => none

/-- What follows `\u`; a high surrogate needs its low one. -/
def readUnicode (cs : List Char) : Option (Char × List Char) := do
  let (n, cs) ← readHex4 cs
  if n < 0xd800 ∨ 0xe000 ≤ n then some (Char.ofNat n, cs)
  else if 0xdc00 ≤ n then none
  else
    match cs with
    | '\\' :: 'u' :: cs => do
        let (m, cs) ← readHex4 cs
        if 0xdc00 ≤ m ∧ m < 0xe000 then
          some (Char.ofNat (0x10000 + (n - 0xd800) * 0x400 + (m - 0xdc00)), cs)
        else none
    | _ => none

/-- What follows the other escapes. -/
def simpleEscape (c : Char) : Option Char :=
  if c = '"' ∨ c = '\\' ∨ c = '/' then some c
  else if c = 'n' then some '\n'
  else if c = 'r' then some '\r'
  else if c = 't' then some '\t'
  else if c = 'b' then some '\x08'
  else if c = 'f' then some '\x0c'
  else none

def readEscape : List Char → Option (Char × List Char)
  | [] => none
  | c :: cs => if c = 'u' then readUnicode cs else (simpleEscape c).map fun d => (d, cs)

/-- One character of a string, which is not its closing quote. -/
def readChar : List Char → Option (Char × List Char)
  | [] => none
  | c :: cs =>
      if c = '\\' then readEscape cs
      else if c = '"' ∨ c.toNat < 0x20 then none
      else some (c, cs)

theorem hexVal_hexDigit : ∀ n < 16, hexVal (hexDigit n) = some n := by decide

theorem readHex4_hexDigits {n : ℕ} (hn : n < 0x10000) (rest : List Char) :
    readHex4 (hexDigit (n / 0x1000 % 16) :: hexDigit (n / 0x100 % 16) ::
      hexDigit (n / 0x10 % 16) :: hexDigit (n % 16) :: rest) = some (n, rest) := by
  have hlt (m : ℕ) : m % 16 < 16 := Nat.mod_lt m (by decide)
  simp only [readHex4, hexVal_hexDigit _ (hlt _), Option.bind_eq_bind, Option.bind_some,
    Option.some.injEq, Prod.mk.injEq, and_true]
  omega

theorem readChar_unicodeEscape (n : ℕ) (rest : List Char) :
    readChar (unicodeEscape n ++ rest) = readUnicode
      (hexDigit (n / 0x1000 % 16) :: hexDigit (n / 0x100 % 16) :: hexDigit (n / 0x10 % 16) ::
        hexDigit (n % 16) :: rest) := by
  simp only [unicodeEscape, List.cons_append, List.nil_append, readChar, readEscape, if_true]

theorem readChar_basic {c : Char} (hc : c.toNat < 0x10000) (rest : List Char) :
    readChar (unicodeEscape c.toNat ++ rest) = some (c, rest) := by
  have hvalid : c.toNat < 0xd800 ∨ 0xe000 ≤ c.toNat := by
    rcases c.valid with h | h
    · exact Or.inl h
    · exact Or.inr (Nat.lt_of_lt_of_le (by decide) h.1)
  rw [readChar_unicodeEscape]
  simp only [readUnicode, readHex4_hexDigits hc, Option.bind_eq_bind, Option.bind_some,
    if_pos hvalid, Char.ofNat_toNat]

/-- A pair of surrogates stands for one character. -/
theorem readChar_surrogates {n : ℕ} (hn : n < 0x100000) (rest : List Char) :
    readChar (unicodeEscape (0xd800 + n / 0x400) ++
      (unicodeEscape (0xdc00 + n % 0x400) ++ rest)) = some (Char.ofNat (0x10000 + n), rest) := by
  have hhigh : 0xd800 + n / 0x400 < 0x10000 := by omega
  have hlow : 0xdc00 + n % 0x400 < 0x10000 := by omega
  have hvalid : ¬ (0xd800 + n / 0x400 < 0xd800 ∨ 0xe000 ≤ 0xd800 + n / 0x400) := by omega
  have hlone : ¬ 0xdc00 ≤ 0xd800 + n / 0x400 := by omega
  have hpair : 0xdc00 ≤ 0xdc00 + n % 0x400 ∧ 0xdc00 + n % 0x400 < 0xe000 := by omega
  have hval : 0x10000 + (0xd800 + n / 0x400 - 0xd800) * 0x400 + (0xdc00 + n % 0x400 - 0xdc00) =
      0x10000 + n := by omega
  rw [readChar_unicodeEscape]
  simp only [readUnicode, readHex4_hexDigits hhigh, Option.bind_eq_bind, Option.bind_some,
    if_neg hvalid, if_neg hlone, unicodeEscape, List.cons_append, List.nil_append,
    readHex4_hexDigits hlow, if_pos hpair, hval]

/-- A character is written as a short escape, as itself, or as one or two code
units. -/
theorem escapeChar_cases (c : Char) :
    (∃ d, escapeChar c = ['\\', d] ∧ d ≠ 'u' ∧ simpleEscape d = some c) ∨
    (escapeChar c = [c] ∧ c ≠ '\\' ∧ ¬ (c = '"' ∨ c.toNat < 0x20)) ∨
    (escapeChar c = unicodeEscape c.toNat ∧ c.toNat < 0x10000) ∨
    (escapeChar c = unicodeEscape (0xd800 + (c.toNat - 0x10000) / 0x400) ++
        unicodeEscape (0xdc00 + (c.toNat - 0x10000) % 0x400) ∧ 0x10000 ≤ c.toNat) := by
  by_cases h₁ : c = '"'
  · subst h₁
    exact Or.inl ⟨'"', rfl, by decide, rfl⟩
  by_cases h₂ : c = '\\'
  · subst h₂
    exact Or.inl ⟨'\\', rfl, by decide, rfl⟩
  by_cases h₃ : c = '\n'
  · subst h₃
    exact Or.inl ⟨'n', rfl, by decide, rfl⟩
  by_cases h₄ : c = '\r'
  · subst h₄
    exact Or.inl ⟨'r', rfl, by decide, rfl⟩
  by_cases h₅ : c = '\t'
  · subst h₅
    exact Or.inl ⟨'t', rfl, by decide, rfl⟩
  by_cases h₆ : c = '\x08'
  · subst h₆
    exact Or.inl ⟨'b', rfl, by decide, rfl⟩
  by_cases h₇ : c = '\x0c'
  · subst h₇
    exact Or.inl ⟨'f', rfl, by decide, rfl⟩
  rw [escapeChar, if_neg h₁, if_neg h₂, if_neg h₃, if_neg h₄, if_neg h₅, if_neg h₆, if_neg h₇]
  refine Or.inr ?_
  by_cases hplain : 0x20 ≤ c.toNat ∧ c.toNat ≤ 0x7e
  · refine Or.inl ⟨if_pos hplain, h₂, ?_⟩
    rintro (h | h)
    · exact h₁ h
    · omega
  rw [if_neg hplain]
  by_cases hbasic : c.toNat < 0x10000
  · exact Or.inr (Or.inl ⟨if_pos hbasic, hbasic⟩)
  · exact Or.inr (Or.inr ⟨if_neg hbasic, Nat.not_lt.mp hbasic⟩)

/-- Every character reads back from the way it is written. -/
theorem readChar_escapeChar (c : Char) (rest : List Char) :
    readChar (escapeChar c ++ rest) = some (c, rest) := by
  rcases escapeChar_cases c with ⟨d, heq, hu, hd⟩ | ⟨heq, hslash, hctrl⟩ | ⟨heq, hbasic⟩ |
    ⟨heq, hge⟩
  · rw [heq]
    simp only [List.cons_append, List.nil_append, readChar, readEscape, if_true, if_neg hu, hd,
      Option.map_some]
  · rw [heq]
    simp only [List.cons_append, List.nil_append, readChar, if_neg hslash, if_neg hctrl]
  · rw [heq]
    exact readChar_basic hbasic rest
  · have hlt : c.toNat < 0x110000 := by
      rcases c.valid with h | h
      · exact Nat.lt_of_lt_of_le h (by decide)
      · exact h.2
    have hval : 0x10000 + (c.toNat - 0x10000) = c.toNat := by omega
    rw [heq, List.append_assoc, readChar_surrogates (by omega), hval, Char.ofNat_toNat]

/-! ### Strings -/

/-- The characters up to the closing quote, and what follows it. -/
def readChars : ℕ → List Char → Option (List Char × List Char)
  | 0, _ => none
  | fuel + 1, cs =>
      if cs.head? = some '"' then some ([], cs.tail)
      else do
        let (c, cs) ← readChar cs
        let (s, cs) ← readChars fuel cs
        some (c :: s, cs)

/-- What follows an opening quote. -/
def readString (cs : List Char) : Option (String × List Char) :=
  (readChars cs.length cs).map fun (s, cs) => (String.ofList s, cs)

/-- A string between its quotes. -/
def strText (s : String) : List Char := '"' :: (s.toList.flatMap escapeChar ++ ['"'])

theorem head_escapeChar (c : Char) : (escapeChar c).head? ≠ some '"' ∧ escapeChar c ≠ [] := by
  rcases escapeChar_cases c with ⟨d, heq, -⟩ | ⟨heq, -, hctrl⟩ | ⟨heq, -⟩ | ⟨heq, -⟩
  · simp [heq]
  · simpa [heq] using fun h => hctrl (Or.inl h)
  · simp [heq, unicodeEscape]
  · simp [heq, unicodeEscape]

theorem readChars_flatMap (s rest : List Char) {fuel : ℕ} (hfuel : s.length < fuel) :
    readChars fuel (s.flatMap escapeChar ++ '"' :: rest) = some (s, rest) := by
  induction s generalizing fuel with
  | nil =>
      obtain ⟨fuel, rfl⟩ := Nat.exists_eq_succ_of_ne_zero (Nat.ne_of_gt hfuel)
      simp [readChars]
  | cons c s ih =>
      obtain ⟨fuel, rfl⟩ := Nat.exists_eq_succ_of_ne_zero (Nat.ne_of_gt (Nat.zero_lt_of_lt hfuel))
      have ih := ih (Nat.lt_of_succ_lt_succ hfuel)
      obtain ⟨hhead, hne⟩ := head_escapeChar c
      have hhead' : ((c :: s).flatMap escapeChar ++ '"' :: rest).head? ≠ some '"' := by
        obtain ⟨d, ds, hd⟩ := List.exists_cons_of_ne_nil hne
        rw [hd] at hhead
        simpa [hd] using hhead
      rw [readChars, if_neg hhead', List.flatMap_cons, List.append_assoc, readChar_escapeChar]
      simp [ih]

theorem length_le_flatMap_escapeChar (s : List Char) :
    s.length ≤ (s.flatMap escapeChar).length := by
  induction s with
  | nil => simp
  | cons c s ih =>
      have hpos : 0 < (escapeChar c).length := List.length_pos_of_ne_nil (head_escapeChar c).2
      simp only [List.length_cons, List.flatMap_cons, List.length_append]
      omega

theorem readString_strText (s : String) (rest : List Char) :
    readString ((strText s).tail ++ rest) = some (s, rest) := by
  have hlen := length_le_flatMap_escapeChar s.toList
  have htext : (strText s).tail ++ rest = s.toList.flatMap escapeChar ++ '"' :: rest := by
    simp [strText]
  have hfuel : s.toList.length < (s.toList.flatMap escapeChar ++ '"' :: rest).length := by
    rw [List.length_append, List.length_cons]
    omega
  rw [readString, htext, readChars_flatMap _ _ hfuel]
  simp

/-! ### Integers -/

/-- `%d` of a natural number. -/
def natText (n : ℕ) : List Char := Nat.toDigits 10 n

/-- `%d`. -/
def intText : ℤ → List Char
  | .ofNat n => natText n
  | .negSucc n => '-' :: natText (n + 1)

/-- A run of digits without a leading zero. -/
def readNat (cs : List Char) : Option (ℕ × List Char) :=
  let ds := cs.takeWhile Char.isDigit
  if ds = [] ∨ (1 < ds.length ∧ ds.head? = some '0') then none
  else some (Nat.ofDigitChars 10 ds 0, cs.dropWhile Char.isDigit)

def readInt : List Char → Option (ℤ × List Char)
  | [] => none
  | c :: cs =>
      if c = '-' then (readNat cs).map fun (n, cs) => (-(n : ℤ), cs)
      else (readNat (c :: cs)).map fun (n, cs) => ((n : ℤ), cs)

/-- The text does not go on with a digit. -/
def NoDigit (cs : List Char) : Prop := ∀ c, cs.head? = some c → c.isDigit = false

theorem head_natText {n : ℕ} (hn : 0 < n) : (natText n).head? ≠ some '0' := by
  induction n using Nat.strongRecOn with
  | ind n ih =>
      rw [natText, Nat.toDigits_eq_if (by decide)]
      split
      · have hdigit : ∀ m < 10, 0 < m → Nat.digitChar m ≠ '0' := by decide
        simpa using hdigit n (by assumption) hn
      · have hdiv : 0 < n / 10 := by omega
        rw [List.head?_append_of_ne_nil _ Nat.toDigits_ne_nil]
        exact ih (n / 10) (by omega) hdiv

theorem readNat_natText (n : ℕ) {rest : List Char} (hrest : NoDigit rest) :
    readNat (natText n ++ rest) = some (n, rest) := by
  have hdigits : ∀ c ∈ natText n, c.isDigit = true := fun c hc =>
    Nat.isDigit_of_mem_toDigits (by decide) (by decide) hc
  have htake : rest.takeWhile Char.isDigit = [] ∧ rest.dropWhile Char.isDigit = rest := by
    cases rest with
    | nil => simp
    | cons c cs => simp [hrest c rfl]
  have hlead : ¬ (natText n = [] ∨ (1 < (natText n).length ∧ (natText n).head? = some '0')) := by
    rintro (hnil | ⟨hlen, hhead⟩)
    · exact Nat.toDigits_ne_nil hnil
    · rcases Nat.eq_zero_or_pos n with rfl | hn
      · simp [natText] at hlen
      · exact head_natText hn hhead
  simp only [readNat, List.takeWhile_append_of_pos hdigits, List.dropWhile_append_of_pos hdigits,
    htake.1, htake.2, List.append_nil, if_neg hlead]
  rw [natText, Nat.ofDigitChars_ten_toDigits]

theorem readInt_intText (n : ℤ) {rest : List Char} (hrest : NoDigit rest) :
    readInt (intText n ++ rest) = some (n, rest) := by
  cases n with
  | ofNat n =>
      obtain ⟨c, cs, hc⟩ := List.exists_cons_of_ne_nil (Nat.toDigits_ne_nil (n := n) (b := 10))
      have hdigit : c.isDigit = true :=
        Nat.isDigit_of_mem_toDigits (n := n) (b := 10) (by decide) (by decide) (by simp [hc])
      have hminus : c ≠ '-' := by
        rintro rfl
        exact absurd hdigit (by decide)
      have hread := readNat_natText n hrest
      simp only [intText, natText, hc, List.cons_append] at hread ⊢
      rw [readInt, if_neg hminus, hread]
      rfl
  | negSucc n =>
      simp only [intText, List.cons_append, readInt, if_true, readNat_natText (n + 1) hrest]
      rfl

/-! ### Values -/

/-- Blank space between tokens. -/
def isBlank (c : Char) : Bool := c = ' ' || c = '\t' || c = '\n' || c = '\r'

def skipBlanks (cs : List Char) : List Char := cs.dropWhile isBlank

mutual

/-- The text of a value, with the blank `sp` after every comma and colon. -/
def dumps (sp : List Char) : Value → List Char
  | .null => ['n', 'u', 'l', 'l']
  | .bool true => ['t', 'r', 'u', 'e']
  | .bool false => ['f', 'a', 'l', 's', 'e']
  | .int n => intText n
  | .str s => strText s
  | .arr items => '[' :: dumpsItems sp items
  | .obj members => '{' :: dumpsMembers sp members

/-- The items and the closing bracket. -/
def dumpsItems (sp : List Char) : List Value → List Char
  | [] => [']']
  | [v] => dumps sp v ++ [']']
  | v :: w :: items => dumps sp v ++ ',' :: (sp ++ dumpsItems sp (w :: items))

/-- The members and the closing brace. -/
def dumpsMembers (sp : List Char) : List (String × Value) → List Char
  | [] => ['}']
  | [(k, v)] => strText k ++ ':' :: (sp ++ (dumps sp v ++ ['}']))
  | (k, v) :: m :: members =>
      strText k ++ ':' :: (sp ++ (dumps sp v ++ ',' :: (sp ++ dumpsMembers sp (m :: members))))

end

mutual

def readValue : ℕ → List Char → Option (Value × List Char)
  | 0, _ => none
  | fuel + 1, cs =>
      match skipBlanks cs with
      | [] => none
      | c :: cs =>
          if c = '"' then (readString cs).map fun (s, cs) => (.str s, cs)
          else if c = '[' then
            if (skipBlanks cs).head? = some ']' then some (.arr [], (skipBlanks cs).tail)
            else (readItems fuel cs).map fun (items, cs) => (.arr items, cs)
          else if c = '{' then
            if (skipBlanks cs).head? = some '}' then some (.obj [], (skipBlanks cs).tail)
            else (readMembers fuel cs).map fun (members, cs) => (.obj members, cs)
          else if c = '-' ∨ c.isDigit then (readInt (c :: cs)).map fun (n, cs) => (.int n, cs)
          else
            match c :: cs with
            | 'n' :: 'u' :: 'l' :: 'l' :: cs => some (.null, cs)
            | 't' :: 'r' :: 'u' :: 'e' :: cs => some (.bool true, cs)
            | 'f' :: 'a' :: 'l' :: 's' :: 'e' :: cs => some (.bool false, cs)
            | _ => none

/-- One item or more, and the closing bracket. -/
def readItems : ℕ → List Char → Option (List Value × List Char)
  | 0, _ => none
  | fuel + 1, cs => do
      let (v, cs) ← readValue fuel cs
      match skipBlanks cs with
      | ']' :: cs => some ([v], cs)
      | ',' :: cs => (readItems fuel cs).map fun (items, cs) => (v :: items, cs)
      | _ => none

/-- One member or more, and the closing brace. -/
def readMembers : ℕ → List Char → Option (List (String × Value) × List Char)
  | 0, _ => none
  | fuel + 1, cs =>
      match skipBlanks cs with
      | '"' :: cs => do
          let (k, cs) ← readString cs
          match skipBlanks cs with
          | ':' :: cs => do
              let (v, cs) ← readValue fuel cs
              match skipBlanks cs with
              | '}' :: cs => some ([(k, v)], cs)
              | ',' :: cs => (readMembers fuel cs).map fun (ms, cs) => ((k, v) :: ms, cs)
              | _ => none
          | _ => none
      | _ => none

end

/-- The value of a whole text, with blanks around it. -/
def read (cs : List Char) : Option Value :=
  match readValue (cs.length + 1) cs with
  | some (v, cs) => if skipBlanks cs = [] then some v else none
  | none => none

/-! ### The round trip -/

theorem skipBlanks_append {sp : List Char} (hsp : ∀ c ∈ sp, isBlank c = true) (cs : List Char) :
    skipBlanks (sp ++ cs) = skipBlanks cs :=
  List.dropWhile_append_of_pos hsp

theorem skipBlanks_cons {c : Char} (hc : isBlank c = false) (cs : List Char) :
    skipBlanks (c :: cs) = c :: cs := by
  simp [skipBlanks, hc]

theorem readValue_append {sp : List Char} (hsp : ∀ c ∈ sp, isBlank c = true) (fuel : ℕ)
    (cs : List Char) : readValue fuel (sp ++ cs) = readValue fuel cs := by
  cases fuel with
  | zero => rfl
  | succ fuel => simp only [readValue, skipBlanks_append hsp]

theorem readItems_append {sp : List Char} (hsp : ∀ c ∈ sp, isBlank c = true) (fuel : ℕ)
    (cs : List Char) : readItems fuel (sp ++ cs) = readItems fuel cs := by
  cases fuel with
  | zero => rfl
  | succ fuel => simp only [readItems, readValue_append hsp]

theorem readMembers_append {sp : List Char} (hsp : ∀ c ∈ sp, isBlank c = true) (fuel : ℕ)
    (cs : List Char) : readMembers fuel (sp ++ cs) = readMembers fuel cs := by
  cases fuel with
  | zero => rfl
  | succ fuel => simp only [readMembers, skipBlanks_append hsp]

/-- After a key and its colon comes the value. -/
theorem readMembers_strText (fuel : ℕ) (k : String) (cs : List Char) :
    readMembers (fuel + 1) (strText k ++ ':' :: cs) = (do
      let (v, cs) ← readValue fuel cs
      match skipBlanks cs with
      | '}' :: cs => some ([(k, v)], cs)
      | ',' :: cs => (readMembers fuel cs).map fun (ms, cs) => ((k, v) :: ms, cs)
      | _ => none) := by
  have hread := readString_strText k (':' :: cs)
  rw [strText] at hread ⊢
  simp only [List.cons_append, List.tail_cons] at hread ⊢
  rw [readMembers, skipBlanks_cons (by decide)]
  simp only [hread, Option.bind_eq_bind, Option.bind_some]
  rw [skipBlanks_cons (by decide)]
  rfl

theorem exists_intText (n : ℤ) :
    ∃ c cs, intText n = c :: cs ∧ (c = '-' ∨ c.isDigit = true) := by
  cases n with
  | ofNat n =>
      obtain ⟨c, cs, hc⟩ := List.exists_cons_of_ne_nil (Nat.toDigits_ne_nil (n := n) (b := 10))
      exact ⟨c, cs, hc, Or.inr (Nat.isDigit_of_mem_toDigits (n := n) (b := 10) (by decide)
        (by decide) (by simp [hc]))⟩
  | negSucc n => exact ⟨'-', natText (n + 1), rfl, Or.inl rfl⟩

/-- A number starts like nothing else. -/
theorem number_head {c : Char} (hc : c = '-' ∨ c.isDigit = true) :
    isBlank c = false ∧ c ≠ '"' ∧ c ≠ '[' ∧ c ≠ '{' ∧ c ≠ ']' := by
  have hne : ∀ d : Char, (d ≠ '-' ∧ d.isDigit = false) → c ≠ d := by
    rintro d ⟨hd, hd'⟩ rfl
    rcases hc with hc | hc
    · exact hd hc
    · rw [hd'] at hc
      cases hc
  refine ⟨?_, hne _ (by decide), hne _ (by decide), hne _ (by decide), hne _ (by decide)⟩
  simp [isBlank, hne ' ' (by decide), hne '\t' (by decide), hne '\n' (by decide),
    hne '\r' (by decide)]

/-- A value starts with a character that is neither blank nor a closing
bracket. -/
theorem exists_dumps (sp : List Char) (v : Value) :
    ∃ c cs, dumps sp v = c :: cs ∧ isBlank c = false ∧ c ≠ ']' := by
  cases v with
  | null => exact ⟨_, _, by rw [dumps], by decide, by decide⟩
  | bool b => cases b <;> exact ⟨_, _, by rw [dumps], by decide, by decide⟩
  | int n =>
      obtain ⟨c, cs, hn, hc⟩ := exists_intText n
      have hhead := number_head hc
      exact ⟨c, cs, by rw [dumps, hn], hhead.1, hhead.2.2.2.2⟩
  | str s => exact ⟨_, _, by rw [dumps, strText], by decide, by decide⟩
  | arr items => exact ⟨_, _, by rw [dumps], by decide, by decide⟩
  | obj members => exact ⟨_, _, by rw [dumps], by decide, by decide⟩

theorem skipBlanks_dumps (sp : List Char) (v : Value) (rest : List Char) :
    skipBlanks (dumps sp v ++ rest) = dumps sp v ++ rest := by
  obtain ⟨c, cs, hv, hc, _⟩ := exists_dumps sp v
  rw [hv]
  exact skipBlanks_cons hc _

theorem noDigit_cons {c : Char} (hc : c.isDigit = false) (cs : List Char) :
    NoDigit (c :: cs) := by
  rintro d hd
  obtain rfl : c = d := by simpa using hd
  exact hc

theorem readInt_dumps (n : ℤ) {rest : List Char} (hrest : NoDigit rest) (fuel : ℕ) :
    readValue (fuel + 1) (intText n ++ rest) = some (.int n, rest) := by
  have hread := readInt_intText n hrest
  obtain ⟨c, cs, hn, hc⟩ := exists_intText n
  obtain ⟨hblank, hquote, hbracket, hbrace, _⟩ := number_head hc
  rw [hn, List.cons_append] at hread ⊢
  rw [readValue, skipBlanks_cons hblank]
  simp only [if_neg hquote, if_neg hbracket, if_neg hbrace, if_pos hc, hread]
  rfl

theorem exists_dumpsItems (sp : List Char) (v : Value) (items : List Value) :
    ∃ tail, dumpsItems sp (v :: items) = dumps sp v ++ tail := by
  cases items with
  | nil => exact ⟨_, by rw [dumpsItems]⟩
  | cons w items => exact ⟨_, by rw [dumpsItems]⟩

theorem exists_dumpsMembers (sp : List Char) (m : String × Value)
    (members : List (String × Value)) :
    ∃ tail, dumpsMembers sp (m :: members) = '"' :: tail := by
  obtain ⟨k, v⟩ := m
  cases members with
  | nil => exact ⟨_, by rw [dumpsMembers, strText, List.cons_append]⟩
  | cons m members => exact ⟨_, by rw [dumpsMembers, strText, List.cons_append]⟩

-- The fuel is bounded by the text: whatever a value contains has a shorter one.
mutual

theorem readValue_dumps {sp : List Char} (hsp : ∀ c ∈ sp, isBlank c = true) :
    (v : Value) → {rest : List Char} → NoDigit rest → {fuel : ℕ} →
    (dumps sp v).length < fuel → readValue fuel (dumps sp v ++ rest) = some (v, rest)
  | v, rest, hrest, 0, hfuel => absurd hfuel (Nat.not_lt_zero _)
  | .null, rest, hrest, fuel + 1, hfuel => by
      rw [dumps]; rfl
  | .bool true, rest, hrest, fuel + 1, hfuel => by
      rw [dumps]; rfl
  | .bool false, rest, hrest, fuel + 1, hfuel => by
      rw [dumps]; rfl
  | .int n, rest, hrest, fuel + 1, hfuel => by
      rw [dumps]
      exact readInt_dumps n hrest fuel
  | .str s, rest, hrest, fuel + 1, hfuel => by
      have hread := readString_strText s rest
      rw [dumps, strText] at *
      simp only [List.cons_append, List.tail_cons] at hread ⊢
      rw [readValue, skipBlanks_cons (by decide)]
      simp only [if_true, hread]
      rfl
  | .arr [], rest, hrest, fuel + 1, hfuel => by
      rw [dumps, dumpsItems]; rfl
  | .arr (v :: items), rest, hrest, fuel + 1, hfuel => by
      rw [dumps] at hfuel ⊢
      have hread : readItems fuel (dumpsItems sp (v :: items) ++ rest) =
          some (v :: items, rest) :=
        readItems_dumps hsp (v :: items) (by simp) (by simpa using hfuel)
      -- The reader looks for the end of an empty array first.
      have hopen : (skipBlanks (dumpsItems sp (v :: items) ++ rest)).head? ≠ some ']' := by
        obtain ⟨tail, htail⟩ := exists_dumpsItems sp v items
        obtain ⟨c, cs, hv, _, hc⟩ := exists_dumps sp v
        rw [htail, List.append_assoc, skipBlanks_dumps, hv]
        simpa using hc
      rw [List.cons_append, readValue, skipBlanks_cons (by decide)]
      simp only [Char.reduceEq, if_false, if_true, if_neg hopen, hread]
      rfl
  | .obj [], rest, hrest, fuel + 1, hfuel => by
      rw [dumps, dumpsMembers]; rfl
  | .obj (m :: members), rest, hrest, fuel + 1, hfuel => by
      rw [dumps] at hfuel ⊢
      have hread : readMembers fuel (dumpsMembers sp (m :: members) ++ rest) =
          some (m :: members, rest) :=
        readMembers_dumps hsp (m :: members) (by simp) (by simpa using hfuel)
      have hopen : (skipBlanks (dumpsMembers sp (m :: members) ++ rest)).head? ≠ some '}' := by
        obtain ⟨tail, htail⟩ := exists_dumpsMembers sp m members
        rw [htail, List.cons_append, skipBlanks_cons (by decide)]
        simp
      rw [List.cons_append, readValue, skipBlanks_cons (by decide)]
      simp only [Char.reduceEq, if_false, if_true, if_neg hopen, hread]
      rfl

theorem readItems_dumps {sp : List Char} (hsp : ∀ c ∈ sp, isBlank c = true) :
    (items : List Value) → items ≠ [] → {rest : List Char} → {fuel : ℕ} →
    (dumpsItems sp items).length < fuel →
    readItems fuel (dumpsItems sp items ++ rest) = some (items, rest)
  | [], hne, _, _, _ => absurd rfl hne
  | v :: items, _, rest, 0, hfuel => absurd hfuel (Nat.not_lt_zero _)
  | [v], _, rest, fuel + 1, hfuel => by
      rw [dumpsItems] at hfuel ⊢
      have hread : readValue fuel (dumps sp v ++ ']' :: rest) = some (v, ']' :: rest) :=
        readValue_dumps hsp v (noDigit_cons (by decide) _) (by simp at hfuel; omega)
      rw [List.append_assoc, List.singleton_append, readItems, hread]
      rfl
  | v :: w :: items, _, rest, fuel + 1, hfuel => by
      rw [dumpsItems] at hfuel ⊢
      simp only [List.length_append, List.length_cons] at hfuel
      have hread : readValue fuel (dumps sp v ++ ',' :: (sp ++ (dumpsItems sp (w :: items) ++
          rest))) = some (v, ',' :: (sp ++ (dumpsItems sp (w :: items) ++ rest))) :=
        readValue_dumps hsp v (noDigit_cons (by decide) _) (by omega)
      have hitems : readItems fuel (dumpsItems sp (w :: items) ++ rest) =
          some (w :: items, rest) :=
        readItems_dumps hsp (w :: items) (by simp) (by omega)
      simp only [List.append_assoc, List.cons_append]
      rw [readItems, hread]
      simp only [Option.bind_eq_bind, Option.bind_some, skipBlanks_cons (c := ',') (by decide),
        readItems_append hsp, hitems]
      rfl

theorem readMembers_dumps {sp : List Char} (hsp : ∀ c ∈ sp, isBlank c = true) :
    (members : List (String × Value)) → members ≠ [] →
    {rest : List Char} → {fuel : ℕ} → (dumpsMembers sp members).length < fuel →
    readMembers fuel (dumpsMembers sp members ++ rest) = some (members, rest)
  | [], hne, _, _, _ => absurd rfl hne
  | m :: members, _, rest, 0, hfuel => absurd hfuel (Nat.not_lt_zero _)
  | [(k, v)], _, rest, fuel + 1, hfuel => by
      rw [dumpsMembers] at hfuel ⊢
      simp only [List.length_append, List.length_cons] at hfuel
      have hread : readValue fuel (dumps sp v ++ '}' :: rest) = some (v, '}' :: rest) :=
        readValue_dumps hsp v (noDigit_cons (by decide) _) (by omega)
      simp only [List.append_assoc, List.cons_append, List.nil_append]
      rw [readMembers_strText, readValue_append hsp, hread]
      rfl
  | (k, v) :: m :: members, _, rest, fuel + 1, hfuel => by
      rw [dumpsMembers] at hfuel ⊢
      simp only [List.length_append, List.length_cons] at hfuel
      have hread : readValue fuel (dumps sp v ++ ',' :: (sp ++ (dumpsMembers sp (m :: members) ++
          rest))) = some (v, ',' :: (sp ++ (dumpsMembers sp (m :: members) ++ rest))) :=
        readValue_dumps hsp v (noDigit_cons (by decide) _) (by omega)
      have hmembers : readMembers fuel (dumpsMembers sp (m :: members) ++ rest) =
          some (m :: members, rest) :=
        readMembers_dumps hsp (m :: members) (by simp) (by omega)
      simp only [List.append_assoc, List.cons_append]
      rw [readMembers_strText, readValue_append hsp, hread]
      simp only [Option.bind_eq_bind, Option.bind_some, skipBlanks_cons (c := ',') (by decide),
        readMembers_append hsp, hmembers]
      rfl

end

/-- Reading what was written gives the value back. -/
theorem read_dumps {sp : List Char} (hsp : ∀ c ∈ sp, isBlank c = true) (v : Value) :
    read (dumps sp v) = some v := by
  have hread : readValue ((dumps sp v).length + 1) (dumps sp v ++ []) = some (v, []) :=
    readValue_dumps hsp v (fun c hc => by cases hc) (Nat.lt_succ_self _)
  rw [List.append_nil] at hread
  rw [read, hread]
  rfl

/-! ### Bytes -/

/-- The text in UTF-8. -/
def encode (cs : List Char) : List UInt8 := cs.flatMap String.utf8EncodeChar

/-- The value of a text in UTF-8. -/
def loads (b : List UInt8) : Option Value :=
  (ByteArray.utf8Decode? (ByteArray.mk b.toArray)).bind fun cs => read cs.toList

theorem loads_encode (cs : List Char) : loads (encode cs) = read cs := by
  have hbytes : ByteArray.mk (encode cs).toArray = cs.utf8Encode :=
    ByteArray.ext (by rw [List.utf8Encode, List.data_toByteArray, encode])
  rw [loads, hbytes, List.utf8Decode?_utf8Encode]
  rfl

theorem length_encode_le (cs : List Char) : (encode cs).length ≤ 4 * cs.length := by
  induction cs with
  | nil => simp [encode]
  | cons c cs ih =>
      have hc := c.utf8Size_le_four
      rw [encode] at ih ⊢
      simp only [List.flatMap_cons, List.length_append, List.length_cons,
        String.length_utf8EncodeChar]
      omega

theorem loads_encode_dumps {sp : List Char} (hsp : ∀ c ∈ sp, isBlank c = true) (v : Value) :
    loads (encode (dumps sp v)) = some v := by
  rw [loads_encode, read_dumps hsp]

end Json
