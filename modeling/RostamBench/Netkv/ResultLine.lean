import RostamBench.Lib.Awk
import RostamBench.Lib.Json
import RostamBench.Netkv.Workload
import Mathlib.Data.List.TakeWhile

/-!
The result line of `netkv`, from `result.print` to the row `kv_loopback.sh` makes of
it.

`print` pads its values on either side to a width they may exceed. The `awk` program
of `point` takes the last line with `ops/s` in it, glues padded values to their keys,
cuts the line into words, takes the word before `ops/s` for the throughput, and keeps
every word with one `=` in a table. The line begins and ends with texts of the engine,
which may hold a `=` too, but never one of the five keys the row is made of.
-/

namespace RostamBench.Netkv.ResultLine

open Awk
open Json (natText intText)

/-! ### What the engines say of themselves -/

/-- What the texts of the engines depend on. -/
structure Setup where
  /-- The number of endpoints of the `rostam` client. -/
  servers : ℕ
  sync : Bool
  perNode : ℤ
  window : ℤ

/-- `name()`. -/
def name : Engine → List Char
  | .rostam => "rostam".toList
  | .rostamPipe => "rostam-pipe".toList
  | .redis => "redis".toList
  | .valkey => "valkey".toList
  | .dragonfly => "dragonfly".toList
  | .keydb => "keydb".toList
  | .memcached => "memcached".toList
  | .aerospike => "aerospike".toList

def rostamSemantics (s : Setup) : List Char :=
  if 1 < s.servers then
    "cluster: ".toList ++ (natText s.servers ++
      " endpoints, shard-leader routed; commit contract set server-side".toList)
  else "single endpoint (direct or single-node cluster), in-memory".toList

def rostamPipeSemantics (s : Setup) : List Char :=
  "pipelined x".toList ++ (intText s.perNode ++ (" window ".toList ++
    (intText s.window ++ " per conn".toList)))

def redisSemantics (s : Setup) : List Char :=
  if s.sync then "SYNC replication (WAIT 1 replica ack), no per-op fsync".toList
  else "no replica-ack barrier (async or single-node), no per-op fsync".toList

def memcachedSemantics : List Char := "in-memory, no persistence, no replication".toList

def aerospikeSemantics (s : Setup) : List Char :=
  if s.sync then "in-memory, RF=2, SYNC (COMMIT_ALL)".toList
  else "in-memory, RF=2, ASYNC (COMMIT_MASTER)".toList

/-- `semantics()`. -/
def semantics (s : Setup) : Engine → List Char
  | .rostam => rostamSemantics s
  | .rostamPipe => rostamPipeSemantics s
  | .redis | .valkey | .dragonfly | .keydb => redisSemantics s
  | .memcached => memcachedSemantics
  | .aerospike => aerospikeSemantics s

/-! ### Printing -/

/-- A number after `%.1f`. -/
structure Tenths where
  whole : ℕ
  tenth : Fin 10

def Tenths.text (t : Tenths) : List Char := natText t.whole ++ '.' :: natText t.tenth

/-- The numbers of a result as they are printed. -/
structure Stats where
  throughput : ℕ
  ops : ℕ
  errs : ℕ
  p50 : Tenths
  p99 : Tenths
  p999 : Tenths

def keyValue (key val : List Char) : List Char := key ++ '=' :: val

/-- `read%%=%d`, and ` dist=zipf` behind it. -/
def label (readPct : ℤ) (zipf : Bool) : List Char :=
  keyValue "read%".toList (intText readPct) ++
    if zipf then blanks 1 ++ keyValue "dist".toList "zipf".toList else []

def us : List Char := "µs".toList

/-- The line `result.print` writes, without its line end. -/
def print (eng : Engine) (s : Setup) (conns : ℤ) (label : List Char) (r : Stats) : List Char :=
  keyValue "engine".toList (padRight 9 (name eng)) ++ blanks 1 ++
    keyValue "conns".toList (padRight 3 (intText conns)) ++ blanks 1 ++
    padRight 20 label ++ blanks 2 ++
    padLeft 10 (natText r.throughput) ++ blanks 1 ++ "ops/s".toList ++ blanks 3 ++
    keyValue "ops".toList (padRight 9 (natText r.ops)) ++ blanks 1 ++
    keyValue "errs".toList (padRight 6 (natText r.errs)) ++ blanks 2 ++
    keyValue "p50".toList (padLeft 6 r.p50.text ++ us) ++ blanks 1 ++
    keyValue "p99".toList (padLeft 7 r.p99.text ++ us) ++ blanks 1 ++
    keyValue "p999".toList (padLeft 8 r.p999.text ++ us) ++ blanks 2 ++
    ['|'] ++ blanks 1 ++ semantics s eng

/-! ### Parsing -/

/-- The variables of the `awk` program. `F[i-1]` of the first word is empty, and so is
a key of `m` that was never set. -/
structure Scan where
  prev : List Char
  opsPerSec : List Char
  m : List Char → List Char

def Scan.initial : Scan := { prev := [], opsPerSec := [], m := fun _ => [] }

/-- `sub(/[^0-9.].*$/,"",val)`. -/
def strip (val : List Char) : List Char := val.takeWhile fun c => c.isDigit || c == '.'

/-- The body of the loop over the words. -/
def Scan.step (st : Scan) (tok : List Char) : Scan :=
  if tok = "ops/s".toList then { st with prev := tok, opsPerSec := st.prev }
  else
    match tok.splitOn '=' with
    | [key, val] => { st with prev := tok, m := Function.update st.m key (strip val) }
    | _ => { st with prev := tok }

/-- What `awk` is told with `-v`. -/
structure Point where
  e : List Char
  wl : List Char
  c : List Char
  gp : List Char
  rep : List Char

/-- The row the `printf` of the program writes. -/
def row (p : Point) (opsPerSec ops errs p50 p99 p999 : List Char) : List Char :=
  ['\t'].intercalate ["1".toList, "kvlb".toList, p.e, p.wl, p.c, p.gp, p.rep, opsPerSec, ops, errs,
    p50, p99, p999] ++ ['\n']

/-- The `awk` program on an output of `netkv`; `none` is `exit 1`. -/
def awk (p : Point) (output : List Char) : Option (List Char) :=
  match ((records output).filter fun line => decide ("ops/s".toList <:+: line)).getLast? with
  | none => none
  | some last =>
      let st := (fields (squeeze false last)).foldl Scan.step Scan.initial
      some (row p st.opsPerSec (st.m "ops".toList) (st.m "errs".toList) (st.m "p50".toList)
        (st.m "p99".toList) (st.m "p999".toList))

/-! ### Texts without `=` and blanks -/

def Plain (s : List Char) : Prop := ∀ c ∈ s, c ≠ '=' ∧ isBlank c = false

instance (s : List Char) : Decidable (Plain s) :=
  List.decidableBAll (fun c => c ≠ '=' ∧ isBlank c = false) s

theorem Plain.not_mem {s : List Char} (h : Plain s) : '=' ∉ s := fun hmem => (h _ hmem).1 rfl

theorem Plain.no_blank {s : List Char} (h : Plain s) : ∀ c ∈ s, isBlank c = false :=
  fun c hc => (h c hc).2

theorem Plain.append {s t : List Char} (hs : Plain s) (ht : Plain t) : Plain (s ++ t) := by
  intro c hc
  rcases List.mem_append.mp hc with hc | hc
  · exact hs c hc
  · exact ht c hc

theorem Plain.cons {c : Char} {s : List Char} (hc : c ≠ '=' ∧ isBlank c = false) (hs : Plain s) :
    Plain (c :: s) :=
  List.forall_mem_cons.mpr ⟨hc, hs⟩

theorem isDigit_natText {n : ℕ} {c : Char} (hc : c ∈ natText n) : c.isDigit = true :=
  Nat.isDigit_of_mem_toDigits (by decide) (by decide) hc

theorem natText_ne_nil (n : ℕ) : natText n ≠ [] := by
  simp [natText]

theorem plain_natText (n : ℕ) : Plain (natText n) := by
  intro c hc
  have hdigit := isDigit_natText hc
  refine ⟨?_, ?_⟩
  · rintro rfl
    exact absurd hdigit (by decide)
  · simp only [isBlank, decide_eq_false_iff_not]
    rintro (rfl | rfl | rfl) <;> exact absurd hdigit (by decide)

theorem plain_intText (n : ℤ) : Plain (intText n) := by
  cases n with
  | ofNat n => exact plain_natText n
  | negSucc n => exact Plain.cons (by decide) (plain_natText _)

theorem intText_ne_nil (n : ℤ) : intText n ≠ [] := by
  cases n with
  | ofNat n => exact natText_ne_nil n
  | negSucc n => exact List.cons_ne_nil _ _

theorem Tenths.plain_text (t : Tenths) : Plain t.text :=
  (plain_natText _).append (Plain.cons (by decide) (plain_natText _))

theorem plain_name (eng : Engine) : Plain (name eng) := by
  cases eng <;> decide

theorem plain_us : Plain us := by
  decide

/-! ### The words of a line -/

variable {key val : List Char}

theorem shows_keyValue (hkey : Plain key) (hval : Plain val) (hne : val ≠ []) :
    Shows (keyValue key val) (keyValue key val) := by
  have hshows := Shows.field 0 hkey.not_mem hkey.no_blank hne hval.no_blank hval.not_mem
  exact hshows

/-- A value padded on the right. -/
theorem fields_padRight (hkey : Plain key) (hval : Plain val) (hne : val ≠ []) (w k : ℕ)
    (s : List Char) :
    fields (squeeze false (keyValue key (padRight w val) ++ (blanks (k + 1) ++ s))) =
      keyValue key val :: fields (squeeze false s) := by
  have hpad : keyValue key (padRight w val) ++ (blanks (k + 1) ++ s) =
      keyValue key val ++ (blanks (w - val.length + k + 1) ++ s) := by
    have hblanks := blanks_append (w - val.length) (k + 1) s
    rw [Nat.add_assoc, ← hblanks, keyValue, padRight, keyValue]
    simp only [List.append_assoc, List.cons_append]
  rw [hpad, fields_shows (shows_keyValue hkey hval hne)]

/-- A value padded on the left, with its unit. -/
theorem fields_padLeft {unit : List Char} (hkey : Plain key) (hval : Plain val) (hunit : Plain unit)
    (hne : unit ≠ []) (w k : ℕ) (s : List Char) :
    fields (squeeze false (keyValue key (padLeft w val ++ unit) ++ (blanks (k + 1) ++ s))) =
      keyValue key (val ++ unit) :: fields (squeeze false s) := by
  have hplain : Plain (val ++ unit) := hval.append hunit
  have hshows : Shows (keyValue key (padLeft w val ++ unit)) (keyValue key (val ++ unit)) := by
    have hfield := Shows.field (w - val.length) hkey.not_mem hkey.no_blank
      (List.append_ne_nil_of_right_ne_nil val hne) hplain.no_blank hplain.not_mem
    rwa [← List.append_assoc] at hfield
  exact fields_shows hshows k s

theorem fields_word {tok : List Char} (htok : Plain tok) (hne : tok ≠ []) (k : ℕ) (s : List Char) :
    fields (squeeze false (tok ++ (blanks (k + 1) ++ s))) = tok :: fields (squeeze false s) :=
  fields_shows (Shows.word hne htok.no_blank htok.not_mem) k s

/-- The words of the label. -/
def labelWords (readPct : ℤ) (zipf : Bool) : List (List Char) :=
  keyValue "read%".toList (intText readPct) ::
    if zipf then [keyValue "dist".toList "zipf".toList] else []

theorem fields_label (readPct : ℤ) (zipf : Bool) (w k : ℕ) (s : List Char) :
    fields (squeeze false (padRight w (label readPct zipf) ++ (blanks (k + 1) ++ s))) =
      labelWords readPct zipf ++ fields (squeeze false s) := by
  have hread : Shows (keyValue "read%".toList (intText readPct))
      (keyValue "read%".toList (intText readPct)) :=
    shows_keyValue (by decide) (plain_intText readPct) (intText_ne_nil readPct)
  have hdist : Shows (keyValue "dist".toList "zipf".toList)
      (keyValue "dist".toList "zipf".toList) :=
    shows_keyValue (by decide) (by decide) (by decide)
  have hpad (n : ℕ) : blanks n ++ (blanks (k + 1) ++ s) = blanks (n + k + 1) ++ s :=
    blanks_append n (k + 1) s
  cases zipf with
  | false =>
      rw [padRight, List.append_assoc, hpad, label, labelWords]
      simp only [Bool.false_eq_true, if_false, List.append_nil]
      rw [fields_shows hread]
      rfl
  | true =>
      rw [padRight, List.append_assoc, hpad, label, labelWords]
      simp only [if_true, List.append_assoc]
      rw [fields_shows hread 0, fields_shows hdist]
      rfl

/-- The words of a result line before those of the semantics. -/
def words (eng : Engine) (conns : ℤ) (readPct : ℤ) (zipf : Bool) (r : Stats) : List (List Char) :=
  keyValue "engine".toList (name eng) :: keyValue "conns".toList (intText conns) ::
    (labelWords readPct zipf ++
      [natText r.throughput, "ops/s".toList, keyValue "ops".toList (natText r.ops),
        keyValue "errs".toList (natText r.errs), keyValue "p50".toList (r.p50.text ++ us),
        keyValue "p99".toList (r.p99.text ++ us), keyValue "p999".toList (r.p999.text ++ us),
        ['|']])

theorem fields_print (eng : Engine) (s : Setup) (conns readPct : ℤ) (zipf : Bool) (r : Stats) :
    fields (squeeze false (print eng s conns (label readPct zipf) r)) =
      words eng conns readPct zipf r ++ fields (squeeze false (semantics s eng)) := by
  have hname : name eng ≠ [] := by cases eng <;> decide
  have hus : us ≠ [] := by decide
  unfold print
  simp only [List.append_assoc]
  rw [fields_padRight (by decide) (plain_name eng) hname 9 0,
    fields_padRight (by decide) (plain_intText conns) (intText_ne_nil conns) 3 0,
    fields_label readPct zipf 20 1, padLeft, List.append_assoc, squeeze_false_blanks,
    fields_blanks, fields_word (plain_natText _) (natText_ne_nil _) 0,
    fields_word (by decide) (by decide) 2,
    fields_padRight (by decide) (plain_natText _) (natText_ne_nil _) 9 0,
    fields_padRight (by decide) (plain_natText _) (natText_ne_nil _) 6 1,
    fields_padLeft (by decide) r.p50.plain_text plain_us hus 6 0,
    fields_padLeft (by decide) r.p99.plain_text plain_us hus 7 0,
    fields_padLeft (by decide) r.p999.plain_text plain_us hus 8 1,
    fields_word (by decide) (by decide) 0, words]
  simp only [List.cons_append, List.append_assoc, List.nil_append]

/-! ### The scan -/

variable {st : Scan}

theorem step_keyValue (hkey : Plain key) (hval : Plain val) :
    st.step (keyValue key val) =
      { st with prev := keyValue key val, m := Function.update st.m key (strip val) } := by
  have hne : keyValue key val ≠ "ops/s".toList := by
    intro heq
    have hmem : '=' ∈ keyValue key val := List.mem_append_right key List.mem_cons_self
    rw [heq] at hmem
    exact absurd hmem (by decide)
  have hsplit : (keyValue key val).splitOn '=' = [key, val] := by
    rw [keyValue, List.splitOn_append_cons_self, List.splitOn_eq_singleton hkey.not_mem,
      List.splitOn_eq_singleton hval.not_mem]
    rfl
  rw [Scan.step, if_neg hne, hsplit]

theorem step_word {tok : List Char} (htok : Plain tok) (hne : tok ≠ "ops/s".toList) :
    st.step tok = { st with prev := tok } := by
  rw [Scan.step, if_neg hne, List.splitOn_eq_singleton htok.not_mem]

theorem step_opsPerSec :
    st.step "ops/s".toList = { st with prev := "ops/s".toList, opsPerSec := st.prev } :=
  if_pos rfl

theorem strip_natText (n : ℕ) : strip (natText n) = natText n := by
  apply List.takeWhile_eq_self_iff.mpr
  intro c hc
  rw [isDigit_natText hc]
  rfl

/-- The unit is cut off. -/
theorem strip_text (t : Tenths) : strip (t.text ++ us) = t.text := by
  have htext : ∀ c ∈ t.text, (c.isDigit || c == '.') = true := by
    intro c hc
    rcases List.mem_append.mp hc with hc | hc
    · rw [isDigit_natText hc]
      rfl
    · rcases List.mem_cons.mp hc with rfl | hc
      · decide
      · rw [isDigit_natText hc]
        rfl
  have hus : us.takeWhile (fun c => c.isDigit || c == '.') = [] := by decide
  rw [strip, List.takeWhile_append_of_pos htext, hus, List.append_nil]

/-- What a scan has found. -/
structure Finds (st : Scan) (r : Stats) : Prop where
  opsPerSec : st.opsPerSec = natText r.throughput
  ops : st.m "ops".toList = natText r.ops
  errs : st.m "errs".toList = natText r.errs
  p50 : st.m "p50".toList = r.p50.text
  p99 : st.m "p99".toList = r.p99.text
  p999 : st.m "p999".toList = r.p999.text

/-- Whatever came before, the words of the metrics set all that the row is made
of. -/
theorem finds_metrics (st : Scan) (r : Stats) :
    Finds ([natText r.throughput, "ops/s".toList, keyValue "ops".toList (natText r.ops),
      keyValue "errs".toList (natText r.errs), keyValue "p50".toList (r.p50.text ++ us),
      keyValue "p99".toList (r.p99.text ++ us), keyValue "p999".toList (r.p999.text ++ us),
      ['|']].foldl Scan.step st) r := by
  have hnum : natText r.throughput ≠ "ops/s".toList := by
    intro heq
    have hmem : 'o' ∈ natText r.throughput := by
      rw [heq]
      decide
    exact absurd (isDigit_natText hmem) (by decide)
  simp only [List.foldl_cons, List.foldl_nil]
  rw [step_word (plain_natText _) hnum, step_opsPerSec,
    step_keyValue (by decide) (plain_natText _), step_keyValue (by decide) (plain_natText _),
    step_keyValue (by decide) (r.p50.plain_text.append plain_us),
    step_keyValue (by decide) (r.p99.plain_text.append plain_us),
    step_keyValue (by decide) (r.p999.plain_text.append plain_us),
    step_word (by decide) (by decide)]
  simp only [strip_natText, strip_text]
  refine ⟨rfl, ?_, ?_, ?_, ?_, ?_⟩
  · dsimp only
    rw [Function.update_of_ne (by decide), Function.update_of_ne (by decide),
      Function.update_of_ne (by decide), Function.update_of_ne (by decide), Function.update_self]
  · dsimp only
    rw [Function.update_of_ne (by decide), Function.update_of_ne (by decide),
      Function.update_of_ne (by decide), Function.update_self]
  · dsimp only
    rw [Function.update_of_ne (by decide), Function.update_of_ne (by decide), Function.update_self]
  · dsimp only
    rw [Function.update_of_ne (by decide), Function.update_self]
  · dsimp only
    rw [Function.update_self]

/-- A word that sets nothing the row is made of. -/
def Harmless (tok : List Char) : Prop :=
  tok ≠ "ops/s".toList ∧ ∀ key val, tok.splitOn '=' = [key, val] →
    key ∉ ["ops".toList, "errs".toList, "p50".toList, "p99".toList, "p999".toList]

theorem Finds.step {r : Stats} (h : Finds st r) {tok : List Char} (htok : Harmless tok) :
    Finds (st.step tok) r := by
  rw [Scan.step, if_neg htok.1]
  split
  · rename_i key val hsplit
    have hkey := htok.2 key val hsplit
    have hne {k : List Char}
        (hk : k ∈ ["ops".toList, "errs".toList, "p50".toList, "p99".toList, "p999".toList]) :
        k ≠ key := fun heq => hkey (heq ▸ hk)
    refine ⟨h.opsPerSec, ?_, ?_, ?_, ?_, ?_⟩
    · exact (Function.update_of_ne (hne (by simp)) _ _).trans h.ops
    · exact (Function.update_of_ne (hne (by simp)) _ _).trans h.errs
    · exact (Function.update_of_ne (hne (by simp)) _ _).trans h.p50
    · exact (Function.update_of_ne (hne (by simp)) _ _).trans h.p99
    · exact (Function.update_of_ne (hne (by simp)) _ _).trans h.p999
  · exact ⟨h.opsPerSec, h.ops, h.errs, h.p50, h.p99, h.p999⟩

theorem Finds.foldl {r : Stats} (h : Finds st r) {toks : List (List Char)}
    (htoks : ∀ tok ∈ toks, Harmless tok) : Finds (toks.foldl Scan.step st) r := by
  induction toks generalizing st with
  | nil => exact h
  | cons tok toks ih =>
      obtain ⟨htok, htoks⟩ := List.forall_mem_cons.mp htoks
      exact ih (h.step htok) htoks

/-! ### The texts of the engines -/

theorem harmless_word {tok : List Char} (heq : '=' ∉ tok) (hslash : '/' ∉ tok) :
    Harmless tok := by
  refine ⟨?_, ?_⟩
  · rintro rfl
    exact hslash (by decide)
  · intro key val hsplit
    rw [List.splitOn_eq_singleton heq] at hsplit
    simp at hsplit

/-- A text without `=` and `/` has only harmless words. -/
theorem harmless_of_not_mem {s : List Char} (heq : '=' ∉ s) (hslash : '/' ∉ s) :
    ∀ tok ∈ fields (squeeze false s), Harmless tok := by
  intro tok htok
  rw [squeeze_of_not_mem heq] at htok
  exact harmless_word (fun hmem => heq (mem_of_mem_fields htok hmem))
    (fun hmem => hslash (mem_of_mem_fields htok hmem))

/-- A word whose key is another one. -/
theorem harmless_keyValue (hkey : Plain key) (hval : Plain val)
    (hne : key ∉ ["ops".toList, "errs".toList, "p50".toList, "p99".toList, "p999".toList]) :
    Harmless (keyValue key val) := by
  refine ⟨?_, ?_⟩
  · intro heq
    have hmem : '=' ∈ keyValue key val := List.mem_append_right key List.mem_cons_self
    rw [heq] at hmem
    exact absurd hmem (by decide)
  · intro key' val' hsplit
    rw [keyValue, List.splitOn_append_cons_self, List.splitOn_eq_singleton hkey.not_mem,
      List.splitOn_eq_singleton hval.not_mem] at hsplit
    obtain ⟨rfl, -⟩ : key = key' ∧ val = val' := by simpa using hsplit
    exact hne

theorem not_mem_natText {c : Char} (hc : c.isDigit = false) (n : ℕ) : c ∉ natText n := by
  intro hmem
  rw [isDigit_natText hmem] at hc
  cases hc

theorem not_mem_intText {c : Char} (hc : c.isDigit = false) (hminus : c ≠ '-') (n : ℤ) :
    c ∉ intText n := by
  cases n with
  | ofNat n => exact not_mem_natText hc n
  | negSucc n =>
      simp only [intText, List.mem_cons, not_or]
      exact ⟨hminus, not_mem_natText hc _⟩

/-- A text without the characters that make a key, a rate or a line. -/
def Quiet (s : List Char) : Prop := '=' ∉ s ∧ '/' ∉ s ∧ '\n' ∉ s

instance (s : List Char) : Decidable (Quiet s) :=
  inferInstanceAs (Decidable ('=' ∉ s ∧ '/' ∉ s ∧ '\n' ∉ s))

theorem Quiet.append {s t : List Char} (hs : Quiet s) (ht : Quiet t) : Quiet (s ++ t) := by
  simp only [Quiet, List.mem_append, not_or]
  exact ⟨⟨hs.1, ht.1⟩, ⟨hs.2.1, ht.2.1⟩, hs.2.2, ht.2.2⟩

theorem quiet_natText (n : ℕ) : Quiet (natText n) :=
  ⟨not_mem_natText (by decide) n, not_mem_natText (by decide) n, not_mem_natText (by decide) n⟩

theorem quiet_intText (n : ℤ) : Quiet (intText n) :=
  ⟨not_mem_intText (by decide) (by decide) n, not_mem_intText (by decide) (by decide) n,
    not_mem_intText (by decide) (by decide) n⟩

/-- The texts of all engines but Aerospike are quiet. -/
theorem quiet_semantics {eng : Engine} (heng : eng ≠ .aerospike) (s : Setup) :
    Quiet (semantics s eng) := by
  have hredis : Quiet (redisSemantics s) := by
    unfold redisSemantics
    split
    · decide +kernel
    · decide +kernel
  cases eng with
  | rostam =>
      show Quiet (rostamSemantics s)
      unfold rostamSemantics
      split
      · apply Quiet.append (by decide +kernel)
        exact (quiet_natText _).append (by decide +kernel)
      · decide +kernel
  | rostamPipe =>
      show Quiet (rostamPipeSemantics s)
      unfold rostamPipeSemantics
      apply Quiet.append (by decide +kernel)
      apply (quiet_intText _).append
      apply Quiet.append (by decide +kernel)
      exact (quiet_intText _).append (by decide +kernel)
  | redis | valkey | dragonfly | keydb => exact hredis
  | memcached =>
      show Quiet memcachedSemantics
      decide +kernel
  | aerospike => exact absurd rfl heng

/-- The text of Aerospike has a key of its own. -/
theorem harmless_aerospikeSemantics (s : Setup) :
    ∀ tok ∈ fields (squeeze false (aerospikeSemantics s)), Harmless tok := by
  have hsync : fields (squeeze false "in-memory, RF=2, SYNC (COMMIT_ALL)".toList) =
      ["in-memory,".toList, keyValue "RF".toList "2,".toList, "SYNC".toList,
        "(COMMIT_ALL)".toList] := by decide +kernel
  have hasync : fields (squeeze false "in-memory, RF=2, ASYNC (COMMIT_MASTER)".toList) =
      ["in-memory,".toList, keyValue "RF".toList "2,".toList, "ASYNC".toList,
        "(COMMIT_MASTER)".toList] := by decide +kernel
  have hrf : Harmless (keyValue "RF".toList "2,".toList) :=
    harmless_keyValue (by decide) (by decide) (by decide)
  unfold aerospikeSemantics
  split
  · rw [hsync]
    simp only [List.forall_mem_cons]
    exact ⟨harmless_word (by decide) (by decide), hrf, harmless_word (by decide) (by decide),
      harmless_word (by decide) (by decide), by simp⟩
  · rw [hasync]
    simp only [List.forall_mem_cons]
    exact ⟨harmless_word (by decide) (by decide), hrf, harmless_word (by decide) (by decide),
      harmless_word (by decide) (by decide), by simp⟩

theorem harmless_semantics (s : Setup) (eng : Engine) :
    ∀ tok ∈ fields (squeeze false (semantics s eng)), Harmless tok := by
  by_cases heng : eng = .aerospike
  · subst heng
    exact harmless_aerospikeSemantics s
  · have hquiet := quiet_semantics heng s
    exact harmless_of_not_mem hquiet.1 hquiet.2.1

/-! ### The row -/

theorem Plain.newline_not_mem {t : List Char} (h : Plain t) : '\n' ∉ t :=
  fun hmem => absurd (h.no_blank _ hmem) (by decide)

theorem newline_not_mem_blanks (n : ℕ) : '\n' ∉ blanks n :=
  fun hmem => absurd (List.eq_of_mem_replicate hmem) (by decide)

theorem newline_not_mem_keyValue {key val : List Char} (hkey : Plain key) (hval : '\n' ∉ val) :
    '\n' ∉ keyValue key val := by
  simp only [keyValue, List.mem_append, List.mem_cons, not_or]
  exact ⟨hkey.newline_not_mem, by decide, hval⟩

theorem newline_not_mem_padRight {t : List Char} (w : ℕ) (h : '\n' ∉ t) :
    '\n' ∉ padRight w t := by
  simp only [padRight, List.mem_append, not_or]
  exact ⟨h, newline_not_mem_blanks _⟩

theorem newline_not_mem_padLeft {t : List Char} (w : ℕ) (h : '\n' ∉ t) :
    '\n' ∉ padLeft w t := by
  simp only [padLeft, List.mem_append, not_or]
  exact ⟨newline_not_mem_blanks _, h⟩

theorem newline_not_mem_label (readPct : ℤ) (zipf : Bool) : '\n' ∉ label readPct zipf := by
  have hread : '\n' ∉ keyValue "read%".toList (intText readPct) :=
    newline_not_mem_keyValue (by decide) (plain_intText readPct).newline_not_mem
  cases zipf with
  | false => simpa [label] using hread
  | true =>
      simp only [label, if_true, List.mem_append, not_or]
      exact ⟨hread, newline_not_mem_blanks 1, by decide⟩

theorem newline_not_mem_semantics (s : Setup) (eng : Engine) : '\n' ∉ semantics s eng := by
  by_cases heng : eng = .aerospike
  · subst heng
    show '\n' ∉ aerospikeSemantics s
    unfold aerospikeSemantics
    split
    · decide +kernel
    · decide +kernel
  · exact (quiet_semantics heng s).2.2

/-- `result.print` writes one line. -/
theorem newline_not_mem_print (eng : Engine) (s : Setup) (conns readPct : ℤ) (zipf : Bool)
    (r : Stats) : '\n' ∉ print eng s conns (label readPct zipf) r := by
  have hfield {key val : List Char} (w : ℕ) (hkey : Plain key) (hval : Plain val) :
      '\n' ∉ keyValue key (padRight w val) :=
    newline_not_mem_keyValue hkey (newline_not_mem_padRight w hval.newline_not_mem)
  have hunit {key : List Char} (w : ℕ) (hkey : Plain key) (t : Tenths) :
      '\n' ∉ keyValue key (padLeft w t.text ++ us) := by
    apply newline_not_mem_keyValue hkey
    simp only [List.mem_append, not_or]
    exact ⟨newline_not_mem_padLeft w t.plain_text.newline_not_mem, plain_us.newline_not_mem⟩
  unfold print
  simp only [List.mem_append, not_or, newline_not_mem_blanks, not_false_eq_true, and_true]
  refine ⟨⟨⟨⟨⟨⟨⟨⟨⟨⟨⟨?_, ?_⟩, ?_⟩, ?_⟩, ?_⟩, ?_⟩, ?_⟩, ?_⟩, ?_⟩, ?_⟩, ?_⟩, ?_⟩
  · exact hfield 9 (by decide) (plain_name eng)
  · exact hfield 3 (by decide) (plain_intText conns)
  · exact newline_not_mem_padRight 20 (newline_not_mem_label readPct zipf)
  · exact newline_not_mem_padLeft 10 (plain_natText _).newline_not_mem
  · decide
  · exact hfield 9 (by decide) (plain_natText _)
  · exact hfield 6 (by decide) (plain_natText _)
  · exact hunit 6 (by decide) r.p50
  · exact hunit 7 (by decide) r.p99
  · exact hunit 8 (by decide) r.p999
  · decide
  · exact newline_not_mem_semantics s eng

theorem opsPerSec_infix_print (eng : Engine) (s : Setup) (conns : ℤ) (label : List Char)
    (r : Stats) : "ops/s".toList <:+: print eng s conns label r := by
  unfold print
  simp only [List.append_assoc]
  iterate 8 apply List.infix_append_of_infix_right
  exact (List.prefix_append _ _).isInfix

/-- The scan of a whole result line. -/
theorem finds_print (eng : Engine) (s : Setup) (conns readPct : ℤ) (zipf : Bool) (r : Stats) :
    Finds ((fields (squeeze false (print eng s conns (label readPct zipf) r))).foldl
      Scan.step Scan.initial) r := by
  rw [fields_print, List.foldl_append, words, List.foldl_cons, List.foldl_cons,
    List.foldl_append]
  exact (finds_metrics _ r).foldl (harmless_semantics s eng)

/-- The last line with `ops/s` in it is the result line. -/
theorem getLast?_filter_opsPerSec {line : List Char} (hline : "ops/s".toList <:+: line)
    {before after : List (List Char)}
    (hbefore : ∀ l ∈ before, ¬ "ops/s".toList <:+: l)
    (hafter : ∀ l ∈ after, ¬ "ops/s".toList <:+: l) :
    ((before ++ [line] ++ after).filter
      fun l => decide ("ops/s".toList <:+: l)).getLast? = some line := by
  have hnone {lines : List (List Char)} (h : ∀ l ∈ lines, ¬ "ops/s".toList <:+: l) :
      (lines.filter fun l => decide ("ops/s".toList <:+: l)) = [] := by
    apply List.filter_eq_nil_iff.mpr
    intro l hl
    simpa only [decide_eq_true_eq] using h l hl
  rw [List.filter_append, List.filter_append, hnone hbefore, hnone hafter, List.filter_cons_of_pos]
  · rfl
  · exact decide_eq_true hline

/-- Every number of a result comes through in its column. -/
theorem result_line_survives (eng : Engine) (s : Setup) (conns readPct : ℤ) (zipf : Bool)
    (r : Stats) (p : Point) {before after : List (List Char)}
    (hother : ∀ l ∈ before ++ after, '\n' ∉ l ∧ ¬ "ops/s".toList <:+: l) :
    awk p ((before ++ [print eng s conns (label readPct zipf) r] ++ after).flatMap
        fun l => l ++ ['\n']) =
      some (row p (natText r.throughput) (natText r.ops) (natText r.errs) r.p50.text r.p99.text
        r.p999.text) := by
  have hlines : ∀ l ∈ before ++ [print eng s conns (label readPct zipf) r] ++ after, '\n' ∉ l := by
    intro l hl
    rcases List.mem_append.mp hl with hl | hl
    · rcases List.mem_append.mp hl with hl | hl
      · exact (hother l (List.mem_append_left _ hl)).1
      · rw [List.mem_singleton.mp hl]
        exact newline_not_mem_print eng s conns readPct zipf r
    · exact (hother l (List.mem_append_right _ hl)).1
  have hlast := getLast?_filter_opsPerSec (opsPerSec_infix_print eng s conns (label readPct zipf) r)
    (fun l hl => (hother l (List.mem_append_left after hl)).2)
    (fun l hl => (hother l (List.mem_append_right before hl)).2)
  have hfinds := finds_print eng s conns readPct zipf r
  unfold awk
  rw [records_flatMap hlines, hlast]
  dsimp only
  rw [hfinds.opsPerSec, hfinds.ops, hfinds.errs, hfinds.p50, hfinds.p99, hfinds.p999]

theorem result_line_survives_between_lines :
    awk ⟨"aerospike".toList, "get".toList, "64".toList, "4".toList, "1".toList⟩
        ((["warm".toList] ++ [print .aerospike ⟨1, true, 1, 1⟩ 64 (label 100 true)
          ⟨123456789012, 7, 0, ⟨12, 3⟩, ⟨123456789, 0⟩, ⟨0, 9⟩⟩] ++ ["done".toList]).flatMap
          fun l => l ++ ['\n']) =
      some (row ⟨"aerospike".toList, "get".toList, "64".toList, "4".toList, "1".toList⟩
        (natText 123456789012) (natText 7) (natText 0) (Tenths.text ⟨12, 3⟩)
        (Tenths.text ⟨123456789, 0⟩) (Tenths.text ⟨0, 9⟩)) :=
  @result_line_survives .aerospike ⟨1, true, 1, 1⟩ 64 100 true
    ⟨123456789012, 7, 0, ⟨12, 3⟩, ⟨123456789, 0⟩, ⟨0, 9⟩⟩ _ ["warm".toList] ["done".toList]
    (by decide)

end RostamBench.Netkv.ResultLine
