import RostamBench.Lib.Json
import Mathlib.Data.List.TakeWhile

/-!
JSON texts as syntax trees, with numbers and strings kept the way they are written.

`Doc` is for texts that are put together from other texts: the whole grammar is read,
numbers with fraction and exponent among them, and nothing is rounded or unescaped on
the way. `Doc.read` is the reader.

A reader goes by what it sees, so the tree of a piece of text might depend on what
stands behind it. It does not, if what stands behind does not go on like a number
(`readDoc_append`). `Reads cs d` says that `cs` is read as `d` in every such place, and
it is closed under building arrays and objects (`Reads.arr`, `Reads.obj`).
-/

namespace Json

inductive Doc
  | null
  | bool (b : Bool)
  | num (text : List Char)
  | str (text : List Char)
  | arr (items : List Doc)
  | obj (members : List (List Char × Doc))

/-! ### Strings as they are written -/

/-- Where the reader is in a string. -/
inductive InString
  | plain
  | escape
  /-- In `\uXXXX`, with so many digits after the next one. -/
  | hex (left : ℕ)
  deriving DecidableEq

/-- The place after a character that does not close the string. -/
def InString.next : InString → Char → Option InString
  | .plain, c =>
      if c = '\\' then some .escape
      else if c = '"' ∨ c.toNat < 0x20 then none
      else some .plain
  | .escape, c =>
      if c = 'u' then some (.hex 3)
      else if (simpleEscape c).isSome then some .plain
      else none
  | .hex 0, c => if (hexVal c).isSome then some .plain else none
  | .hex (left + 1), c => if (hexVal c).isSome then some (.hex left) else none

/-- What follows an opening quote, up to the closing one, and what is left. -/
def readText : InString → List Char → Option (List Char × List Char)
  | _, [] => none
  | st, c :: cs =>
      if st = .plain ∧ c = '"' then some ([], cs)
      else (st.next c).bind fun st => (readText st cs).map fun (s, cs) => (c :: s, cs)

/-! ### Numbers as they are written -/

def isNumChar (c : Char) : Bool :=
  c.isDigit || c == '-' || c == '+' || c == '.' || c == 'e' || c == 'E'

def dropSign : List Char → List Char
  | [] => []
  | c :: s => if c = '+' ∨ c = '-' then s else c :: s

def isExponent : List Char → Bool
  | [] => true
  | c :: s => (c == 'e' || c == 'E') && dropSign s != [] && (dropSign s).all Char.isDigit

def isFraction : List Char → Bool
  | [] => true
  | c :: s =>
      if c = '.' then s.takeWhile Char.isDigit != [] && isExponent (s.dropWhile Char.isDigit)
      else isExponent (c :: s)

def dropMinus : List Char → List Char
  | [] => []
  | c :: s => if c = '-' then s else c :: s

/-- The grammar of numbers. -/
def isNumber (s : List Char) : Bool :=
  let digits := (dropMinus s).takeWhile Char.isDigit
  digits != [] && (digits.length == 1 || digits.head? != some '0') &&
    isFraction ((dropMinus s).dropWhile Char.isDigit)

/-- No number ends before a character that could be part of it. -/
def readNumber (cs : List Char) : Option (Doc × List Char) :=
  if isNumber (cs.takeWhile isNumChar) then
    some (.num (cs.takeWhile isNumChar), cs.dropWhile isNumChar)
  else none

/-! ### Documents -/

/-- The rest of a word that stands for `d`. -/
def readWord (d : Doc) (w cs : List Char) : Option (Doc × List Char) :=
  if w <+: cs then some (d, cs.drop w.length) else none

/-- A key with its quotes and the colon. -/
def readKey (cs : List Char) : Option (List Char × List Char) :=
  match skipBlanks cs with
  | [] => none
  | c :: cs =>
      if c = '"' then
        (readText .plain cs).bind fun (key, cs) =>
          match skipBlanks cs with
          | [] => none
          | c :: cs => if c = ':' then some (key, cs) else none
      else none

mutual

def readDoc : ℕ → List Char → Option (Doc × List Char)
  | 0, _ => none
  | fuel + 1, cs =>
      match skipBlanks cs with
      | [] => none
      | c :: cs =>
          if c = '"' then (readText .plain cs).map fun (s, cs) => (.str s, cs)
          else if c = '[' then
            if (skipBlanks cs).head? = some ']' then some (.arr [], (skipBlanks cs).tail)
            else (readDocItems fuel cs).map fun (items, cs) => (.arr items, cs)
          else if c = '{' then
            if (skipBlanks cs).head? = some '}' then some (.obj [], (skipBlanks cs).tail)
            else (readDocMembers fuel cs).map fun (members, cs) => (.obj members, cs)
          else if c = 'n' then readWord .null ['u', 'l', 'l'] cs
          else if c = 't' then readWord (.bool true) ['r', 'u', 'e'] cs
          else if c = 'f' then readWord (.bool false) ['a', 'l', 's', 'e'] cs
          else readNumber (c :: cs)

/-- One item or more, and the closing bracket. -/
def readDocItems : ℕ → List Char → Option (List Doc × List Char)
  | 0, _ => none
  | fuel + 1, cs =>
      match readDoc fuel cs with
      | none => none
      | some (d, cs) =>
          match skipBlanks cs with
          | [] => none
          | c :: cs =>
              if c = ']' then some ([d], cs)
              else if c = ',' then
                (readDocItems fuel cs).map fun (items, cs) => (d :: items, cs)
              else none

/-- One member or more, and the closing brace. -/
def readDocMembers : ℕ → List Char → Option (List (List Char × Doc) × List Char)
  | 0, _ => none
  | fuel + 1, cs =>
      match readKey cs with
      | none => none
      | some (key, cs) =>
          match readDoc fuel cs with
          | none => none
          | some (d, cs) =>
              match skipBlanks cs with
              | [] => none
              | c :: cs =>
                  if c = '}' then some ([(key, d)], cs)
                  else if c = ',' then
                    (readDocMembers fuel cs).map fun (members, cs) => ((key, d) :: members, cs)
                  else none

end

/-- The tree of a whole text, with blanks around it. -/
def Doc.read (cs : List Char) : Option Doc :=
  match readDoc (cs.length + 1) cs with
  | some (d, cs) => if skipBlanks cs = [] then some d else none
  | none => none

/-- The tree of a text in UTF-8. -/
def Doc.loads (b : List UInt8) : Option Doc :=
  (ByteArray.utf8Decode? (ByteArray.mk b.toArray)).bind fun cs => Doc.read cs.toList

/-! ### What stands behind -/

/-- The text does not go on like a number. -/
def Ends (t : List Char) : Prop := ∀ c, t.head? = some c → isNumChar c = false

theorem Ends.nil : Ends [] := fun c hc => by cases hc

theorem Ends.cons {c : Char} (hc : isNumChar c = false) (t : List Char) : Ends (c :: t) := by
  rintro d hd
  obtain rfl : c = d := by simpa using hd
  exact hc

variable {t : List Char}

theorem takeWhile_append_of_ends (ht : Ends t) (cs : List Char) :
    (cs ++ t).takeWhile isNumChar = cs.takeWhile isNumChar ∧
      (cs ++ t).dropWhile isNumChar = cs.dropWhile isNumChar ++ t := by
  induction cs with
  | nil =>
      cases t with
      | nil => exact ⟨rfl, rfl⟩
      | cons c t => simp [ht c rfl]
  | cons c cs ih =>
      cases hc : isNumChar c with
      | false => simp [hc]
      | true => simpa [hc] using ih

theorem readNumber_append (ht : Ends t) {cs rest : List Char} {d : Doc}
    (h : readNumber cs = some (d, rest)) : readNumber (cs ++ t) = some (d, rest ++ t) := by
  obtain ⟨htake, hdrop⟩ := takeWhile_append_of_ends ht cs
  rw [readNumber] at h ⊢
  rw [htake, hdrop]
  split at h
  · rename_i hnum
    obtain ⟨rfl, rfl⟩ : Doc.num (cs.takeWhile isNumChar) = d ∧ cs.dropWhile isNumChar = rest := by
      simpa using h
    rw [if_pos hnum]
  · cases h

theorem readWord_append {cs rest w : List Char} {d d' : Doc} (t : List Char)
    (h : readWord d' w cs = some (d, rest)) : readWord d' w (cs ++ t) = some (d, rest ++ t) := by
  rw [readWord] at h ⊢
  split at h
  · rename_i hw
    obtain ⟨rfl, rfl⟩ : d' = d ∧ cs.drop w.length = rest := by simpa using h
    rw [if_pos (hw.trans (List.prefix_append cs t)),
      List.drop_append_of_le_length hw.length_le]
  · cases h

theorem readText_append {st : InString} {cs s rest : List Char} (t : List Char)
    (h : readText st cs = some (s, rest)) : readText st (cs ++ t) = some (s, rest ++ t) := by
  induction cs generalizing st s with
  | nil => cases h
  | cons c cs ih =>
      rw [List.cons_append]
      rw [readText] at h ⊢
      by_cases hclose : st = .plain ∧ c = '"'
      · rw [if_pos hclose] at h ⊢
        obtain ⟨rfl, rfl⟩ : [] = s ∧ cs = rest := by simpa using h
        rfl
      · rw [if_neg hclose] at h ⊢
        obtain ⟨st', hst', h⟩ := Option.bind_eq_some_iff.mp h
        obtain ⟨⟨s', rest'⟩, hread, heq⟩ := Option.map_eq_some_iff.mp h
        obtain ⟨rfl, rfl⟩ : c :: s' = s ∧ rest' = rest := by simpa using heq
        rw [hst', Option.bind_some, ih hread]
        rfl

theorem skipBlanks_append_of_cons {cs cs' : List Char} {c : Char} (t : List Char)
    (h : skipBlanks cs = c :: cs') : skipBlanks (cs ++ t) = c :: (cs' ++ t) := by
  induction cs with
  | nil => cases h
  | cons d cs ih =>
      rw [skipBlanks, List.cons_append, List.dropWhile_cons]
      rw [skipBlanks, List.dropWhile_cons] at h
      split at h
      · rename_i hd
        rw [if_pos hd]
        exact ih h
      · rename_i hd
        obtain ⟨rfl, rfl⟩ : d = c ∧ cs = cs' := by simpa using h
        rw [if_neg hd]

theorem readKey_append {cs key rest : List Char} (t : List Char)
    (h : readKey cs = some (key, rest)) : readKey (cs ++ t) = some (key, rest ++ t) := by
  rw [readKey] at h ⊢
  cases hskip : skipBlanks cs with
  | nil => simp [hskip] at h
  | cons c cs' =>
      simp only [hskip] at h
      rw [skipBlanks_append_of_cons t hskip]
      by_cases hc : c = '"'
      · simp only [if_pos hc] at h ⊢
        obtain ⟨⟨key', cs''⟩, htext, h⟩ := Option.bind_eq_some_iff.mp h
        rw [readText_append t htext, Option.bind_some]
        cases hskip' : skipBlanks cs'' with
        | nil => simp [hskip'] at h
        | cons d ds =>
            simp only [hskip'] at h
            simp only [skipBlanks_append_of_cons t hskip']
            by_cases hd : d = ':'
            · simp only [if_pos hd] at h ⊢
              obtain ⟨rfl, rfl⟩ : key' = key ∧ ds = rest := by simpa using h
              rfl
            · simp [hd] at h
      · simp [hc] at h

/-- With `fuel'` the reader does before `t` what it does with `fuel` at the end of the
text. -/
structure Extends (t : List Char) (fuel fuel' : ℕ) : Prop where
  doc : ∀ {cs d rest}, readDoc fuel cs = some (d, rest) →
    readDoc fuel' (cs ++ t) = some (d, rest ++ t)
  items : ∀ {cs items rest}, readDocItems fuel cs = some (items, rest) →
    readDocItems fuel' (cs ++ t) = some (items, rest ++ t)
  members : ∀ {cs members rest}, readDocMembers fuel cs = some (members, rest) →
    readDocMembers fuel' (cs ++ t) = some (members, rest ++ t)

theorem skipBlanks_of_readDoc {fuel : ℕ} {cs rest : List Char} {d : Doc}
    (h : readDoc fuel cs = some (d, rest)) : ∃ c cs', skipBlanks cs = c :: cs' := by
  cases fuel with
  | zero => simp [readDoc] at h
  | succ fuel =>
      rw [readDoc] at h
      cases hskip : skipBlanks cs with
      | nil => simp [hskip] at h
      | cons c cs' => exact ⟨c, cs', rfl⟩

theorem skipBlanks_of_readDocItems {fuel : ℕ} {cs rest : List Char} {items : List Doc}
    (h : readDocItems fuel cs = some (items, rest)) : ∃ c cs', skipBlanks cs = c :: cs' := by
  cases fuel with
  | zero => simp [readDocItems] at h
  | succ fuel =>
      rw [readDocItems] at h
      split at h
      · cases h
      · rename_i hdoc
        exact skipBlanks_of_readDoc hdoc

theorem skipBlanks_of_readDocMembers {fuel : ℕ} {cs rest : List Char}
    {members : List (List Char × Doc)}
    (h : readDocMembers fuel cs = some (members, rest)) : ∃ c cs', skipBlanks cs = c :: cs' := by
  cases fuel with
  | zero => simp [readDocMembers] at h
  | succ fuel =>
      rw [readDocMembers] at h
      cases hskip : skipBlanks cs with
      | nil => simp [readKey, hskip] at h
      | cons c cs' => exact ⟨c, cs', rfl⟩

variable {fuel fuel' : ℕ}

/-- The empty array or object, or its contents. -/
theorem bracket_append {α : Type*} {close : Char} {empty d : Doc} {cs rest : List Char}
    {read read' : List Char → Option (α × List Char)} {build : α → Doc}
    (hread : ∀ {cs a rest}, read cs = some (a, rest) → read' (cs ++ t) = some (a, rest ++ t))
    (hskip : ∀ {cs a rest}, read cs = some (a, rest) → ∃ c cs', skipBlanks cs = c :: cs')
    (h : (if (skipBlanks cs).head? = some close then some (empty, (skipBlanks cs).tail)
      else (read cs).map fun (a, cs) => (build a, cs)) = some (d, rest)) :
    (if (skipBlanks (cs ++ t)).head? = some close then some (empty, (skipBlanks (cs ++ t)).tail)
      else (read' (cs ++ t)).map fun (a, cs) => (build a, cs)) = some (d, rest ++ t) := by
  have hskip' : ∃ c cs', skipBlanks cs = c :: cs' := by
    cases hcs : skipBlanks cs with
    | cons c cs' => exact ⟨c, cs', rfl⟩
    | nil =>
        rw [hcs, if_neg (by simp)] at h
        obtain ⟨⟨a, rest'⟩, ha, -⟩ := Option.map_eq_some_iff.mp h
        rw [← hcs]
        exact hskip ha
  obtain ⟨c, cs', hcs⟩ := hskip'
  rw [skipBlanks_append_of_cons t hcs]
  rw [hcs] at h
  split at h
  · rename_i hclose
    obtain ⟨rfl, rfl⟩ : empty = d ∧ cs' = rest := by simpa using h
    rw [if_pos (by simpa using hclose)]
    rfl
  · rename_i hclose
    obtain ⟨⟨a, rest'⟩, ha, heq⟩ := Option.map_eq_some_iff.mp h
    obtain ⟨rfl, rfl⟩ : build a = d ∧ rest' = rest := by simpa using heq
    rw [if_neg (by simpa using hclose), hread ha]
    rfl

theorem Extends.readDoc (ht : Ends t) (ih : Extends t fuel fuel') {cs rest : List Char} {d : Doc}
    (h : readDoc (fuel + 1) cs = some (d, rest)) :
    readDoc (fuel' + 1) (cs ++ t) = some (d, rest ++ t) := by
  obtain ⟨c, cs', hskip⟩ := skipBlanks_of_readDoc h
  rw [Json.readDoc, hskip] at h
  rw [Json.readDoc, skipBlanks_append_of_cons t hskip]
  simp only at h ⊢
  split at h
  · rename_i hc
    obtain ⟨⟨s, rest'⟩, htext, heq⟩ := Option.map_eq_some_iff.mp h
    obtain ⟨rfl, rfl⟩ : Doc.str s = d ∧ rest' = rest := by simpa using heq
    rw [if_pos hc, readText_append t htext]
    rfl
  rename_i hquote
  rw [if_neg hquote]
  split at h
  · rename_i hc
    rw [if_pos hc]
    exact bracket_append ih.items skipBlanks_of_readDocItems h
  rename_i hbracket
  rw [if_neg hbracket]
  split at h
  · rename_i hc
    rw [if_pos hc]
    exact bracket_append ih.members skipBlanks_of_readDocMembers h
  rename_i hbrace
  rw [if_neg hbrace]
  split at h
  · rename_i hc
    rw [if_pos hc]
    exact readWord_append t h
  rename_i hn
  rw [if_neg hn]
  split at h
  · rename_i hc
    rw [if_pos hc]
    exact readWord_append t h
  rename_i htrue
  rw [if_neg htrue]
  split at h
  · rename_i hc
    rw [if_pos hc]
    exact readWord_append t h
  rename_i hfalse
  rw [if_neg hfalse]
  exact readNumber_append ht h

/-- What follows an item or a member: the end, or a comma and more. -/
theorem separator_append {α : Type*} {close : Char} {one all : List α} {cs rest : List Char}
    {read read' : List Char → Option (List α × List Char)} {more : List α → List α}
    (hread : ∀ {cs a rest}, read cs = some (a, rest) → read' (cs ++ t) = some (a, rest ++ t))
    (h : (match skipBlanks cs with
      | [] => none
      | c :: cs =>
          if c = close then some (one, cs)
          else if c = ',' then (read cs).map fun (a, cs) => (more a, cs)
          else none) = some (all, rest)) :
    (match skipBlanks (cs ++ t) with
      | [] => none
      | c :: cs =>
          if c = close then some (one, cs)
          else if c = ',' then (read' cs).map fun (a, cs) => (more a, cs)
          else none) = some (all, rest ++ t) := by
  cases hskip : skipBlanks cs with
  | nil => simp [hskip] at h
  | cons c cs' =>
      rw [skipBlanks_append_of_cons t hskip]
      simp only [hskip] at h ⊢
      split at h
      · rename_i hc
        obtain ⟨rfl, rfl⟩ : one = all ∧ cs' = rest := by simpa using h
        rw [if_pos hc]
      rename_i hclose
      rw [if_neg hclose]
      split at h
      · rename_i hc
        obtain ⟨⟨a, rest'⟩, ha, heq⟩ := Option.map_eq_some_iff.mp h
        obtain ⟨rfl, rfl⟩ : more a = all ∧ rest' = rest := by simpa using heq
        rw [if_pos hc, hread ha]
        rfl
      · cases h

theorem Extends.readDocItems (ih : Extends t fuel fuel') {cs rest : List Char} {items : List Doc}
    (h : readDocItems (fuel + 1) cs = some (items, rest)) :
    readDocItems (fuel' + 1) (cs ++ t) = some (items, rest ++ t) := by
  rw [Json.readDocItems] at h ⊢
  cases hdoc : Json.readDoc fuel cs with
  | none => simp [hdoc] at h
  | some p =>
      obtain ⟨d, cs'⟩ := p
      simp only [hdoc, ih.doc hdoc] at h ⊢
      exact separator_append ih.items h

theorem Extends.readDocMembers (ih : Extends t fuel fuel') {cs rest : List Char}
    {members : List (List Char × Doc)} (h : readDocMembers (fuel + 1) cs = some (members, rest)) :
    readDocMembers (fuel' + 1) (cs ++ t) = some (members, rest ++ t) := by
  rw [Json.readDocMembers] at h ⊢
  cases hkey : readKey cs with
  | none => simp [hkey] at h
  | some p =>
      obtain ⟨key, cs'⟩ := p
      simp only [hkey, readKey_append t hkey] at h ⊢
      cases hdoc : Json.readDoc fuel cs' with
      | none => simp [hdoc] at h
      | some q =>
          obtain ⟨d, cs''⟩ := q
          simp only [hdoc, ih.doc hdoc] at h ⊢
          exact separator_append ih.members h

/-- More fuel and more text change nothing. -/
theorem readDoc_append (ht : Ends t) (hfuel : fuel ≤ fuel') : Extends t fuel fuel' := by
  induction fuel generalizing fuel' with
  | zero =>
      refine ⟨?_, ?_, ?_⟩
      · intro cs d rest h
        simp [readDoc] at h
      · intro cs items rest h
        simp [readDocItems] at h
      · intro cs members rest h
        simp [readDocMembers] at h
  | succ fuel ih =>
      obtain ⟨fuel', rfl⟩ := Nat.exists_eq_add_of_lt hfuel
      have ih : Extends t fuel (fuel + fuel') := ih (Nat.le_add_right _ _)
      exact ⟨ih.readDoc ht, ih.readDocItems, ih.readDocMembers⟩

/-! ### Texts put together -/

/-- Wherever `cs` stands, it is read as `d`; blanks behind it may be left over. -/
def Reads (cs : List Char) (d : Doc) : Prop :=
  ∀ t, Ends t → ∃ sp, (∀ c ∈ sp, isBlank c = true) ∧
    ∀ fuel, cs.length < fuel → readDoc fuel (cs ++ t) = some (d, sp ++ t)

/-- A whole text may be put into another one. -/
theorem Reads.of_read {cs : List Char} {d : Doc} (h : Doc.read cs = some d) : Reads cs d := by
  intro t ht
  rw [Doc.read] at h
  split at h
  · rename_i d' sp hread
    split at h
    · rename_i hblank
      obtain rfl := Option.some.inj h
      refine ⟨sp, List.dropWhile_eq_nil_iff.mp hblank, ?_⟩
      intro fuel hfuel
      exact (readDoc_append ht hfuel).doc hread
    · cases h
  · cases h

theorem Reads.read {cs : List Char} {d : Doc} (h : Reads cs d) : Doc.read cs = some d := by
  obtain ⟨sp, hsp, hread⟩ := h [] Ends.nil
  have hread := hread (cs.length + 1) (Nat.lt_succ_self _)
  rw [List.append_nil, List.append_nil] at hread
  rw [Doc.read, hread]
  exact if_pos (List.dropWhile_eq_nil_iff.mpr hsp)

theorem Reads.trueText : Reads ['t', 'r', 'u', 'e'] (.bool true) := by
  intro t _
  refine ⟨[], by simp, ?_⟩
  intro fuel hfuel
  obtain ⟨fuel, rfl⟩ := Nat.exists_eq_succ_of_ne_zero (Nat.ne_of_gt (Nat.zero_lt_of_lt hfuel))
  simp [readDoc, readWord, skipBlanks, isBlank]

theorem Reads.nilArr : Reads ['[', ']'] (.arr []) := by
  intro t _
  refine ⟨[], by simp, ?_⟩
  intro fuel hfuel
  obtain ⟨fuel, rfl⟩ := Nat.exists_eq_succ_of_ne_zero (Nat.ne_of_gt (Nat.zero_lt_of_lt hfuel))
  simp [readDoc, skipBlanks, isBlank]

theorem isNumber_natText (n : ℕ) : isNumber (natText n) = true := by
  have hdigits : ∀ c ∈ natText n, c.isDigit = true := fun c hc =>
    Nat.isDigit_of_mem_toDigits (by decide) (by decide) hc
  obtain ⟨c, cs, hcs⟩ := List.exists_cons_of_ne_nil (Nat.toDigits_ne_nil (n := n) (b := 10))
  have hminus : dropMinus (natText n) = natText n := by
    have hc : c ≠ '-' := by
      rintro rfl
      exact absurd (hdigits '-' (by rw [natText, hcs]; exact List.mem_cons_self)) (by decide)
    rw [natText, hcs, dropMinus, if_neg hc]
  have hlead : ((natText n).length == 1 || (natText n).head? != some '0') = true := by
    rcases Nat.eq_zero_or_pos n with rfl | hn
    · rfl
    · simp [head_natText hn]
  rw [isNumber]
  simp only [hminus, List.takeWhile_eq_self_iff.mpr hdigits, List.dropWhile_eq_nil_iff.mpr hdigits,
    hlead]
  simp [natText, hcs, isFraction]

/-- Nothing else starts with a digit. -/
theorem readDoc_of_isDigit {c : Char} (hc : c.isDigit = true) (fuel : ℕ) (cs : List Char) :
    readDoc (fuel + 1) (c :: cs) = readNumber (c :: cs) := by
  have hne {d : Char} (hd : d.isDigit = false) : c ≠ d := by
    rintro rfl
    rw [hc] at hd
    cases hd
  have hblank : isBlank c = false := by
    simp [isBlank, hne (d := ' ') (by decide), hne (d := '\t') (by decide),
      hne (d := '\n') (by decide), hne (d := '\r') (by decide)]
  rw [readDoc, skipBlanks_cons hblank]
  simp only [if_neg (hne (d := '"') (by decide)), if_neg (hne (d := '[') (by decide)),
    if_neg (hne (d := '{') (by decide)), if_neg (hne (d := 'n') (by decide)),
    if_neg (hne (d := 't') (by decide)), if_neg (hne (d := 'f') (by decide))]

theorem Reads.nat (n : ℕ) : Reads (natText n) (.num (natText n)) := by
  intro t ht
  refine ⟨[], by simp, ?_⟩
  intro fuel hfuel
  obtain ⟨fuel, rfl⟩ := Nat.exists_eq_succ_of_ne_zero (Nat.ne_of_gt (Nat.zero_lt_of_lt hfuel))
  have hdigits : ∀ c ∈ natText n, c.isDigit = true := fun c hc =>
    Nat.isDigit_of_mem_toDigits (by decide) (by decide) hc
  have hnum : ∀ c ∈ natText n, isNumChar c = true := fun c hc => by simp [isNumChar, hdigits c hc]
  have hread : readNumber (natText n ++ t) = some (.num (natText n), t) := by
    obtain ⟨htake, hdrop⟩ := takeWhile_append_of_ends ht (natText n)
    rw [readNumber, htake, hdrop, List.takeWhile_eq_self_iff.mpr hnum,
      List.dropWhile_eq_nil_iff.mpr hnum, if_pos (isNumber_natText n), List.nil_append]
  obtain ⟨c, cs, hcs⟩ := List.exists_cons_of_ne_nil (Nat.toDigits_ne_nil (n := n) (b := 10))
  have hc : c.isDigit = true := hdigits c (by rw [natText, hcs]; exact List.mem_cons_self)
  rw [List.nil_append, ← hread, natText, hcs, List.cons_append, readDoc_of_isDigit hc]

/-- Texts with commas between them. -/
def commas (texts : List (List Char)) : List Char := (texts.intersperse [',']).flatten

theorem commas_singleton (cs : List Char) : commas [cs] = cs := by
  simp [commas]

theorem commas_cons_cons (cs cs' : List Char) (texts : List (List Char)) :
    commas (cs :: cs' :: texts) = cs ++ ',' :: commas (cs' :: texts) := by
  simp [commas]

/-- The characters that stand for themselves in a string. -/
def PlainText (key : List Char) : Prop := ∀ c ∈ key, c ≠ '\\' ∧ c ≠ '"' ∧ ¬ c.toNat < 0x20

instance (key : List Char) : Decidable (PlainText key) :=
  List.decidableBAll (fun c => c ≠ '\\' ∧ c ≠ '"' ∧ ¬ c.toNat < 0x20) key

/-- A key with its quotes and the colon. -/
def keyText (key : List Char) : List Char := '"' :: (key ++ ['"', ':'])

theorem readText_plain {key : List Char} (hkey : PlainText key) (t : List Char) :
    readText .plain (key ++ '"' :: t) = some (key, t) := by
  induction key with
  | nil => rfl
  | cons c key ih =>
      obtain ⟨⟨hslash, hquote, hctrl⟩, hkey⟩ := List.forall_mem_cons.mp hkey
      rw [List.cons_append, readText, if_neg (by simp [hquote])]
      simp only [InString.next, if_neg hslash, hquote, hctrl, or_self, if_false, Option.bind_some,
        ih hkey]
      rfl

theorem readKey_keyText {key : List Char} (hkey : PlainText key) (t : List Char) :
    readKey (keyText key ++ t) = some (key, t) := by
  have htext : keyText key ++ t = '"' :: (key ++ '"' :: ':' :: t) := by simp [keyText]
  rw [htext, readKey, skipBlanks_cons (by decide)]
  simp only [if_true, readText_plain hkey, Option.bind_some]
  rw [skipBlanks_cons (by decide)]
  rfl

/-- A member of an object: its key, the text of its value, and what that is read as. -/
structure Member where
  key : List Char
  text : List Char
  doc : Doc
  plain : PlainText key
  reads : Reads text doc

/-- An item of an array: its text, and what that is read as. -/
structure Item where
  text : List Char
  doc : Doc
  reads : Reads text doc

def Member.line (m : Member) : List Char := keyText m.key ++ m.text

theorem readDocItems_commas {items : List Item} (hne : items ≠ []) (t : List Char) {fuel : ℕ}
    (hfuel : (commas (items.map Item.text)).length + 1 < fuel) :
    readDocItems fuel (commas (items.map Item.text) ++ ']' :: t) =
      some (items.map Item.doc, t) := by
  induction items generalizing fuel with
  | nil => exact absurd rfl hne
  | cons i items ih =>
      obtain ⟨fuel, rfl⟩ := Nat.exists_eq_succ_of_ne_zero (Nat.ne_of_gt (Nat.zero_lt_of_lt hfuel))
      cases items with
      | nil =>
          simp only [List.map_cons, List.map_nil, commas_singleton] at hfuel ⊢
          obtain ⟨sp, hsp, hread⟩ := i.reads (']' :: t) (Ends.cons (by decide) t)
          rw [readDocItems, hread fuel (by omega)]
          simp only [skipBlanks_append hsp, skipBlanks_cons (c := ']') (by decide), if_true]
      | cons i' items =>
          simp only [List.map_cons, commas_cons_cons, List.length_append, List.length_cons]
            at hfuel ih ⊢
          have hitems : readDocItems fuel (commas (i'.text :: items.map Item.text) ++ ']' :: t) =
              some (i'.doc :: items.map Item.doc, t) := ih (by simp) (by omega)
          obtain ⟨sp, hsp, hread⟩ := i.reads
            (',' :: (commas (i'.text :: items.map Item.text) ++ ']' :: t))
            (Ends.cons (by decide) _)
          rw [List.append_assoc, List.cons_append, readDocItems, hread fuel (by omega)]
          simp only [skipBlanks_append hsp, skipBlanks_cons (c := ',') (by decide), Char.reduceEq,
            if_false, if_true, hitems]
          rfl

theorem readDocMembers_commas {members : List Member} (hne : members ≠ []) (t : List Char)
    {fuel : ℕ} (hfuel : (commas (members.map Member.line)).length + 1 < fuel) :
    readDocMembers fuel (commas (members.map Member.line) ++ '}' :: t) =
      some (members.map fun m => (m.key, m.doc), t) := by
  induction members generalizing fuel with
  | nil => exact absurd rfl hne
  | cons m members ih =>
      obtain ⟨fuel, rfl⟩ := Nat.exists_eq_succ_of_ne_zero (Nat.ne_of_gt (Nat.zero_lt_of_lt hfuel))
      cases members with
      | nil =>
          simp only [List.map_cons, List.map_nil, commas_singleton, Member.line,
            List.length_append] at hfuel ⊢
          obtain ⟨sp, hsp, hread⟩ := m.reads ('}' :: t) (Ends.cons (by decide) t)
          rw [List.append_assoc, readDocMembers, readKey_keyText m.plain]
          simp only [hread fuel (by omega), skipBlanks_append hsp,
            skipBlanks_cons (c := '}') (by decide), if_true]
      | cons m' members =>
          simp only [List.map_cons, commas_cons_cons, List.length_append, List.length_cons]
            at hfuel ih ⊢
          have hmembers : readDocMembers fuel
              (commas (m'.line :: members.map Member.line) ++ '}' :: t) =
              some ((m'.key, m'.doc) :: members.map fun m => (m.key, m.doc), t) :=
            ih (by simp) (by omega)
          have hline : m.line.length = (keyText m.key).length + m.text.length := by
            rw [Member.line, List.length_append]
          obtain ⟨sp, hsp, hread⟩ := m.reads
            (',' :: (commas (m'.line :: members.map Member.line) ++ '}' :: t))
            (Ends.cons (by decide) _)
          rw [List.append_assoc, List.cons_append, Member.line, List.append_assoc, readDocMembers,
            readKey_keyText m.plain]
          simp only [hread fuel (by omega), skipBlanks_append hsp,
            skipBlanks_cons (c := ',') (by decide), Char.reduceEq, if_false, if_true, hmembers]
          rfl

/-- No item starts with a closing bracket. -/
theorem head_of_readDocItems {fuel : ℕ} {cs rest : List Char} {items : List Doc}
    (h : readDocItems fuel cs = some (items, rest)) : (skipBlanks cs).head? ≠ some ']' := by
  obtain ⟨c, cs', hskip⟩ := skipBlanks_of_readDocItems h
  intro hhead
  obtain rfl : c = ']' := by simpa [hskip] using hhead
  cases fuel with
  | zero => simp [readDocItems] at h
  | succ fuel =>
      have hnone : readDoc fuel cs = none := by
        cases fuel with
        | zero => rw [readDoc]
        | succ fuel =>
            rw [readDoc, hskip]
            rfl
      simp [readDocItems, hnone] at h

/-- No member starts with a closing brace. -/
theorem head_of_readDocMembers {fuel : ℕ} {cs rest : List Char}
    {members : List (List Char × Doc)} (h : readDocMembers fuel cs = some (members, rest)) :
    (skipBlanks cs).head? ≠ some '}' := by
  obtain ⟨c, cs', hskip⟩ := skipBlanks_of_readDocMembers h
  intro hhead
  obtain rfl : c = '}' := by simpa [hskip] using hhead
  cases fuel with
  | zero => simp [readDocMembers] at h
  | succ fuel => simp [readDocMembers, readKey, hskip] at h

/-- An array of at least one item. -/
theorem Reads.arr (items : List Item) (hne : items ≠ []) :
    Reads ('[' :: (commas (items.map Item.text) ++ [']'])) (.arr (items.map Item.doc)) := by
  intro t _
  refine ⟨[], by simp, ?_⟩
  intro fuel hfuel
  obtain ⟨fuel, rfl⟩ := Nat.exists_eq_succ_of_ne_zero (Nat.ne_of_gt (Nat.zero_lt_of_lt hfuel))
  simp only [List.length_cons, List.length_append, List.length_nil] at hfuel
  have hread : readDocItems fuel (commas (items.map Item.text) ++ ']' :: t) =
      some (items.map Item.doc, t) := readDocItems_commas hne t (by omega)
  have hopen := head_of_readDocItems hread
  rw [List.cons_append, List.append_assoc, List.singleton_append, readDoc,
    skipBlanks_cons (by decide)]
  simp only [Char.reduceEq, if_false, if_true, if_neg hopen, hread]
  rfl

/-- An object of at least one member. -/
theorem Reads.obj (members : List Member) (hne : members ≠ []) :
    Reads ('{' :: (commas (members.map Member.line) ++ ['}']))
      (.obj (members.map fun m => (m.key, m.doc))) := by
  intro t _
  refine ⟨[], by simp, ?_⟩
  intro fuel hfuel
  obtain ⟨fuel, rfl⟩ := Nat.exists_eq_succ_of_ne_zero (Nat.ne_of_gt (Nat.zero_lt_of_lt hfuel))
  simp only [List.length_cons, List.length_append, List.length_nil] at hfuel
  have hread : readDocMembers fuel (commas (members.map Member.line) ++ '}' :: t) =
      some (members.map fun m => (m.key, m.doc), t) := readDocMembers_commas hne t (by omega)
  have hopen := head_of_readDocMembers hread
  rw [List.cons_append, List.append_assoc, List.singleton_append, readDoc,
    skipBlanks_cons (by decide)]
  simp only [Char.reduceEq, if_false, if_true, if_neg hopen, hread]
  rfl

/-! ### Documents in UTF-8 -/

theorem encode_append (cs cs' : List Char) : encode (cs ++ cs') = encode cs ++ encode cs' :=
  List.flatMap_append

theorem Doc.loads_encode (cs : List Char) : Doc.loads (encode cs) = Doc.read cs := by
  have hbytes : ByteArray.mk (encode cs).toArray = cs.utf8Encode :=
    ByteArray.ext (by rw [List.utf8Encode, List.data_toByteArray, encode])
  rw [Doc.loads, hbytes, List.utf8Decode?_utf8Encode]
  rfl

/-- Bytes that have a tree are the bytes of a text that has it. -/
theorem Doc.exists_text {b : List UInt8} {d : Doc} (h : Doc.loads b = some d) :
    ∃ cs, b = encode cs ∧ Doc.read cs = some d := by
  obtain ⟨cs, hdecode, hread⟩ := Option.bind_eq_some_iff.mp h
  obtain ⟨l, hl⟩ := ByteArray.isSome_utf8Decode?_iff.mp (Option.isSome_of_eq_some hdecode)
  have hb : b = encode l := by
    have hdata := congrArg (fun a : ByteArray => a.data.toList) hl
    rw [List.utf8Encode, List.data_toByteArray] at hdata
    exact hdata
  refine ⟨l, hb, ?_⟩
  rw [← Doc.loads_encode, ← hb]
  exact h

/-! ### Members and numbers -/

/-- The member of an object with this key. -/
def Doc.get? (key : List Char) : Doc → Option Doc
  | .obj members => (members.find? fun m => m.1 == key).map Prod.snd
  | _ => none

/-- A number that is written as a natural one. -/
def Doc.nat? : Doc → Option ℕ
  | .num text => (readNat text).bind fun (n, rest) => if rest = [] then some n else none
  | _ => none

theorem Doc.nat?_natText (n : ℕ) : (Doc.num (natText n)).nat? = some n := by
  have hread := readNat_natText n (by simp [NoDigit] : NoDigit [])
  rw [List.append_nil] at hread
  rw [Doc.nat?, hread]
  rfl

end Json
