import RostamBench.Lib.ExchangeSort
import RostamBench.Lib.Ranks
import RostamBench.Netkv.ResultLine
import Mathlib.Data.List.GetD
import Mathlib.Data.Rat.Floor

/-!
The summary `kv_loopback.sh` prints at its end, an `awk` program over the TSV.

The program goes through the rows once. It counts the rows with errors, and files the
throughput of every other one under the engine, the workload and the connections, with
a running number. Then it takes the cells in an order of its own, copies the throughputs
of a cell to an array, sorts them there by exchange, prints the one in the middle or the
mean of the two, and deletes the array.

Numbers are rational where `awk` has doubles, so nothing is rounded before it is printed;
the throughputs of `netkv` are integers, and below `2 ^ 52` doubles round nothing either. The
order of the cells is a parameter (`order`).
-/

namespace RostamBench.Netkv.Summary

open Awk ResultLine
open Json (natText)

/-! ### The program -/

/-- An element of an array; `none` is one that was never set. -/
abbrev Value := Option (List Char)

def isNumeric : Value → Bool
  | none => true
  | some s => looksNumeric s

def numOf : Value → ℚ
  | none => 0
  | some s => num s

/-- `x < y`: numbers are compared as numbers, anything else as text. -/
def less (x y : Value) : Bool :=
  if isNumeric x && isNumeric y then decide (numOf x < numOf y)
  else decide (x.getD [] < y.getD [])

/-- The field `$i`, with `-F'\t'`. -/
def field (line : List Char) (i : ℕ) : List Char := (line.splitOn '\t').getD (i - 1) []

/-- The variables of the program. `keys` are the subscripts of `n`. -/
structure Vars where
  keys : List (List Char)
  n : List Char → ℕ
  v : List Char → Value
  skipped : ℕ

def Vars.initial : Vars := { keys := [], n := fun _ => 0, v := fun _ => none, skipped := 0 }

/-- The subscript `k","i`. -/
def subscript (k : List Char) (i : ℕ) : List Char := k ++ ',' :: natText i

/-- `n[k]++; v[k","n[k]]=x`. -/
def Vars.add (st : Vars) (k x : List Char) : Vars :=
  { st with
    keys := if k ∈ st.keys then st.keys else st.keys ++ [k]
    n := Function.update st.n k (st.n k + 1)
    v := Function.update st.v (subscript k (st.n k + 1)) (some x) }

/-- What the program does with a line. -/
def Vars.step (st : Vars) (line : List Char) : Vars :=
  if field line 8 = [] then st
  else if 0 < num (field line 10) then { st with skipped := st.skipped + 1 }
  else st.add (field line 3 ++ '\t' :: (field line 4 ++ '\t' :: field line 5)) (field line 8)

/-- All lines but the first. -/
def scan (text : List Char) : Vars := ((records text).drop 1).foldl Vars.step Vars.initial

/-- A line of the summary, before the median is rounded. -/
structure Line where
  key : List Char
  med : ℚ
  samples : ℕ

/-- `for (i=1;i<=c;i++) a[i]=v[k","i]`. -/
def Vars.fill (st : Vars) (k : List Char) (a : ℕ → Value) : ℕ → Value :=
  (List.range' 1 (st.n k)).foldl (fun a i => Function.update a i (st.v (subscript k i))) a

/-- `med`. -/
def medianOf (c : ℕ) (a : ℕ → Value) : ℚ :=
  if c % 2 = 1 then numOf (a ((c + 1) / 2)) else (numOf (a (c / 2)) + numOf (a (c / 2 + 1))) / 2

/-- The body of the loop over the cells. -/
def Vars.line (st : Vars) (k : List Char) (a : ℕ → Value) : Line where
  key := k
  med := medianOf (st.n k) (ExchangeSort.sort less (st.n k) (st.fill k a))
  samples := st.n k

/-- The loop over the cells. The array is empty again after each of them. -/
def Vars.loop (st : Vars) : List (List Char) → (ℕ → Value) → List Line
  | [], _ => []
  | k :: ks, a => st.line k a :: st.loop ks fun _ => none

structure Report where
  lines : List Line
  skipped : ℕ

def report (order : List (List Char)) (text : List Char) : Report where
  lines := (scan text).loop order fun _ => none
  skipped := (scan text).skipped

/-- The number in the note, if there is a note. -/
def Report.note (r : Report) : Option ℕ := if 0 < r.skipped then some r.skipped else none

/-! ### Printing -/

/-- A number rounded to the nearest one, or to the even one of two. -/
def roundEven (x : ℚ) : ℕ :=
  let n := ⌊x⌋₊
  if x - n < 1 / 2 then n
  else if 1 / 2 < x - n then n + 1
  else if n % 2 = 0 then n else n + 1

/-- `%.0f`. -/
def fixedText (x : ℚ) : List Char :=
  if x < 0 then '-' :: natText (roundEven (-x)) else natText (roundEven x)

def Line.text (l : Line) : List Char :=
  l.key ++ '\t' :: (fixedText l.med ++ '\t' :: (natText l.samples ++ ['\n']))

def Report.text (r : Report) : List Char :=
  "engine\tworkload\tconns\tmedian_ops_s\tsamples\n".toList ++ r.lines.flatMap Line.text ++
    match r.note with
    | some n => "# NOTE: excluded ".toList ++ (natText n ++
        " errorful rep(s) from the medians above\n".toList)
    | none => []

/-! ### The TSV -/

/-- A text that is one column of one line. -/
structure Column where
  text : List Char
  no_tab : '\t' ∉ text
  no_newline : '\n' ∉ text
  deriving DecidableEq

structure Cell where
  engine : Column
  workload : Column
  conns : Column
  deriving DecidableEq

/-- A row of results. Its throughput is a number. -/
structure Row where
  cell : Cell
  gens : Column
  rep : Column
  throughput : Column
  ops : Column
  errs : ℕ
  p50 : Column
  p99 : Column
  p999 : Column
  numeric : looksNumeric throughput.text = true

/-- The row as `point` writes it. -/
def Row.text (r : Row) : List Char :=
  row ⟨r.cell.engine.text, r.cell.workload.text, r.cell.conns.text, r.gens.text, r.rep.text⟩
    r.throughput.text r.ops.text (natText r.errs) r.p50.text r.p99.text r.p999.text

/-- The first line of the TSV. -/
def header : List Char :=
  "tier\tconfig\tengine\tworkload\tconns\tgens\trep\tops_s\tops\terrs\tp50_us\tp99_us\tp999_us".toList

def tsv (rows : List Row) : List Char := header ++ ['\n'] ++ rows.flatMap Row.text

/-- The three columns of a cell, with tabs between them. -/
def Cell.key (c : Cell) : List Char :=
  c.engine.text ++ '\t' :: (c.workload.text ++ '\t' :: c.conns.text)

/-- The throughput of a row. -/
def Row.opsPerSec (r : Row) : ℚ := num r.throughput.text

/-- The rows of a cell that have no errors. -/
def clean (rows : List Row) (c : Cell) : List Row :=
  rows.filter fun r => decide (r.cell = c) && decide (r.errs = 0)

/-- The lines a cell should have: one with the median, if it has a row without errors. -/
def expected (rows : List Row) (c : Cell) : List Line :=
  if clean rows c = [] then []
  else [{ key := c.key
          med := Ranks.median ((clean rows c).map Row.opsPerSec)
          samples := (clean rows c).length }]

/-! ### The columns of a row -/

variable {rows : List Row} {st : Vars} {k : List Char}

def Row.columns (r : Row) : List (List Char) :=
  ["1".toList, "kvlb".toList, r.cell.engine.text, r.cell.workload.text, r.cell.conns.text,
    r.gens.text, r.rep.text, r.throughput.text, r.ops.text, natText r.errs, r.p50.text, r.p99.text,
    r.p999.text]

def Row.line (r : Row) : List Char := ['\t'].intercalate r.columns

theorem not_mem_intercalate {c sep : Char} {ls : List (List Char)} (hsep : c ≠ sep)
    (h : ∀ l ∈ ls, c ∉ l) : c ∉ [sep].intercalate ls := by
  induction ls with
  | nil => simp
  | cons l ls ih =>
      obtain ⟨hl, hls⟩ := List.forall_mem_cons.mp h
      cases ls with
      | nil => simpa using hl
      | cons l' ls =>
          rw [List.intercalate_cons_cons, List.mem_append, List.mem_append, List.mem_singleton]
          rintro ((hc | hc) | hc)
          · exact hl hc
          · exact hsep hc
          · exact ih hls hc

/-- No column holds a tab or a line end. -/
theorem Row.columns_plain (r : Row) : ∀ s ∈ r.columns, '\t' ∉ s ∧ '\n' ∉ s := by
  have hcolumn (c : Column) : '\t' ∉ c.text ∧ '\n' ∉ c.text := ⟨c.no_tab, c.no_newline⟩
  have herrs : '\t' ∉ natText r.errs ∧ '\n' ∉ natText r.errs :=
    ⟨not_mem_natText (by decide) _, not_mem_natText (by decide) _⟩
  simp only [Row.columns, List.forall_mem_cons]
  exact ⟨by decide, by decide, hcolumn _, hcolumn _, hcolumn _, hcolumn _, hcolumn _, hcolumn _,
    hcolumn _, herrs, hcolumn _, hcolumn _, hcolumn _, by simp⟩

theorem Row.field_line (r : Row) (i : ℕ) : field r.line i = r.columns.getD (i - 1) [] := by
  rw [field, Row.line, List.splitOn_intercalate _ (fun s hs => (r.columns_plain s hs).1)
    (List.cons_ne_nil _ _)]

theorem records_tsv (rows : List Row) : records (tsv rows) = header :: rows.map Row.line := by
  have htsv : tsv rows = (header :: rows.map Row.line).flatMap fun line => line ++ ['\n'] := by
    rw [tsv, List.flatMap_cons, List.flatMap_map]
    rfl
  have hheader : '\n' ∉ header := by
    unfold header
    rw [String.toList_ofList]
    decide +kernel
  rw [htsv, records_flatMap]
  intro line hline
  rcases List.mem_cons.mp hline with rfl | hline
  · exact hheader
  · obtain ⟨r, -, rfl⟩ := List.mem_map.mp hline
    exact not_mem_intercalate (by decide) fun s hs => (r.columns_plain s hs).2

theorem throughput_ne_nil (r : Row) : r.throughput.text ≠ [] := by
  intro hnil
  have hnumeric := r.numeric
  rw [hnil] at hnumeric
  exact absurd hnumeric (by decide)

/-- What the program does with a row. -/
theorem step_line (st : Vars) (r : Row) :
    st.step r.line = if 0 < r.errs then { st with skipped := st.skipped + 1 }
      else st.add r.cell.key r.throughput.text := by
  have herrs : num (natText r.errs) = r.errs := num_toDigits r.errs
  rw [Vars.step]
  simp only [r.field_line]
  change (if r.throughput.text = [] then st
    else if 0 < num (natText r.errs) then { st with skipped := st.skipped + 1 }
    else st.add r.cell.key r.throughput.text) = _
  rw [if_neg (throughput_ne_nil r), herrs]
  simp only [Nat.cast_pos]

/-! ### The scan -/

theorem append_cons_inj {c : Char} {s s' t t' : List Char} (h : s ++ c :: t = s' ++ c :: t')
    (ht : c ∉ t) (ht' : c ∉ t') : s = s' ∧ t = t' := by
  have hone {s s' t t' d : List Char} (hs : s' = s ++ d) (heq : c :: t = d ++ c :: t')
      (ht : c ∉ t) : s = s' ∧ t = t' := by
    cases d with
    | nil => exact ⟨by simpa using hs.symm, by simpa using heq⟩
    | cons x d =>
        rw [List.cons_append, List.cons.injEq] at heq
        exact absurd (heq.2 ▸ List.mem_append_right d List.mem_cons_self) ht
  rcases List.append_eq_append_iff.mp h with ⟨d, hs, heq⟩ | ⟨d, hs, heq⟩
  · exact hone hs heq ht
  · obtain ⟨hs', ht''⟩ := hone hs heq ht'
    exact ⟨hs'.symm, ht''.symm⟩

theorem natText_inj {i j : ℕ} (h : natText i = natText j) : i = j := by
  have hread := congrArg (fun s => Nat.ofDigitChars 10 s 0) h
  simpa only [natText, Nat.ofDigitChars_ten_toDigits] using hread

/-- No two cells share a subscript of `v`. -/
theorem subscript_inj {k k' : List Char} {i j : ℕ} (h : subscript k i = subscript k' j) :
    k = k' ∧ i = j := by
  obtain ⟨hk, htext⟩ := append_cons_inj h (not_mem_natText (by decide) i)
    (not_mem_natText (by decide) j)
  exact ⟨hk, natText_inj htext⟩

theorem Vars.mem_keys_add {k' x : List Char} : k' ∈ (st.add k x).keys ↔ k' ∈ st.keys ∨ k' = k := by
  rw [Vars.add]
  dsimp only
  split
  · rename_i hold
    constructor
    · exact Or.inl
    · rintro (hk | rfl)
      · exact hk
      · exact hold
  · rw [List.mem_append, List.mem_singleton]

theorem Vars.nodup_keys_add {x : List Char} (h : st.keys.Nodup) : (st.add k x).keys.Nodup := by
  rw [Vars.add]
  dsimp only
  split
  · exact h
  · rename_i hnew
    rw [← List.concat_eq_append]
    exact h.concat hnew

theorem Vars.add_n_self {x : List Char} : (st.add k x).n k = st.n k + 1 :=
  Function.update_self _ _ _

theorem Vars.add_n_of_ne {k' x : List Char} (h : k' ≠ k) : (st.add k x).n k' = st.n k' :=
  Function.update_of_ne h _ _

theorem Vars.add_v_self {x : List Char} : (st.add k x).v (subscript k (st.n k + 1)) = some x :=
  Function.update_self _ _ _

theorem Vars.add_v_of_ne {sub x : List Char} (h : sub ≠ subscript k (st.n k + 1)) :
    (st.add k x).v sub = st.v sub :=
  Function.update_of_ne h _ _

/-- The throughputs filed under `k`, in the order of their rows. -/
def samples (rows : List Row) (k : List Char) : List (List Char) :=
  (rows.filter fun r => decide (r.cell.key = k) && decide (r.errs = 0)).map fun r =>
    r.throughput.text

theorem samples_ne_nil_iff : samples rows k ≠ [] ↔ ∃ r ∈ rows, r.cell.key = k ∧ r.errs = 0 := by
  rw [samples, Ne, List.map_eq_nil_iff, List.filter_eq_nil_iff]
  simp

theorem samples_append_of_errs {r : Row} (h : 0 < r.errs) :
    samples (rows ++ [r]) k = samples rows k := by
  have hnot : r.errs ≠ 0 := by omega
  simp [samples, hnot]

theorem samples_append_self {r : Row} (h : r.errs = 0) :
    samples (rows ++ [r]) r.cell.key = samples rows r.cell.key ++ [r.throughput.text] := by
  simp [samples, h]

theorem samples_append_of_ne {r : Row} (h : r.cell.key ≠ k) :
    samples (rows ++ [r]) k = samples rows k := by
  simp [samples, h]

/-- What the variables hold after the rows. -/
structure Holds (rows : List Row) (st : Vars) : Prop where
  nodup : st.keys.Nodup
  keys : ∀ k, k ∈ st.keys ↔ samples rows k ≠ []
  n : ∀ k, st.n k = (samples rows k).length
  v : ∀ k i x, (samples rows k)[i]? = some x → st.v (subscript k (i + 1)) = some x
  skipped : st.skipped = rows.countP fun r => decide (0 < r.errs)

theorem Holds.skip (h : Holds rows st) {r : Row} (herrs : 0 < r.errs) :
    Holds (rows ++ [r]) { st with skipped := st.skipped + 1 } where
  nodup := h.nodup
  keys k := by rw [samples_append_of_errs herrs]; exact h.keys k
  n k := by rw [samples_append_of_errs herrs]; exact h.n k
  v k := by rw [samples_append_of_errs herrs]; exact h.v k
  skipped := by
    rw [List.countP_append, ← h.skipped]
    simp [herrs]

theorem Holds.add (h : Holds rows st) {r : Row} (herrs : r.errs = 0) :
    Holds (rows ++ [r]) (st.add r.cell.key r.throughput.text) where
  nodup := Vars.nodup_keys_add h.nodup
  keys k := by
    rw [Vars.mem_keys_add, h.keys]
    rcases eq_or_ne k r.cell.key with rfl | hk
    · simp [samples_append_self herrs]
    · simp [samples_append_of_ne hk.symm, hk]
  n k := by
    rcases eq_or_ne k r.cell.key with rfl | hk
    · rw [Vars.add_n_self, samples_append_self herrs, h.n, List.length_append]
      rfl
    · rw [Vars.add_n_of_ne hk, samples_append_of_ne hk.symm, h.n]
  v k i x hx := by
    rcases eq_or_ne k r.cell.key with rfl | hk
    · rw [samples_append_self herrs] at hx
      rcases eq_or_ne i (samples rows r.cell.key).length with rfl | hi
      · -- The throughput of the row itself.
        rw [List.getElem?_concat_length] at hx
        rw [← h.n, Vars.add_v_self]
        exact hx
      · have hlen := (List.getElem?_eq_some_iff.mp hx).1
        rw [List.length_append, List.length_singleton] at hlen
        rw [List.getElem?_append_left (by omega)] at hx
        rw [Vars.add_v_of_ne, h.v _ i x hx]
        intro hsub
        have hindex := (subscript_inj hsub).2
        rw [h.n] at hindex
        omega
    · rw [samples_append_of_ne hk.symm] at hx
      rw [Vars.add_v_of_ne, h.v k i x hx]
      exact fun hsub => hk (subscript_inj hsub).1
  skipped := by
    rw [List.countP_append]
    simpa [Vars.add, herrs] using h.skipped

theorem Holds.step (h : Holds rows st) (r : Row) : Holds (rows ++ [r]) (st.step r.line) := by
  rw [step_line]
  split
  · rename_i herrs
    exact h.skip herrs
  · rename_i herrs
    exact h.add (by omega)

theorem holds_scan (rows : List Row) : Holds rows (scan (tsv rows)) := by
  rw [scan, records_tsv, List.drop_one, List.tail_cons]
  induction rows using List.reverseRecOn with
  | nil => exact ⟨List.nodup_nil, by simp [samples, Vars.initial], by simp [samples, Vars.initial],
      by simp [samples], rfl⟩
  | append_singleton rows r ih =>
      rw [List.map_append, List.foldl_append]
      exact ih.step r

/-! ### The cells -/

theorem fill_eq (st : Vars) (k : List Char) (a : ℕ → Value) {i : ℕ} (hi : 1 ≤ i)
    (hin : i ≤ st.n k) : st.fill k a i = st.v (subscript k i) := by
  have hfold (m : ℕ) (him : i ≤ m) : (List.range' 1 m).foldl
      (fun a i => Function.update a i (st.v (subscript k i))) a i = st.v (subscript k i) := by
    induction m with
    | zero => omega
    | succ m ih =>
        rw [List.range'_concat, List.foldl_append, Nat.one_mul]
        change Function.update _ (1 + m) _ i = _
        by_cases hlast : i = 1 + m
        · rw [hlast, Function.update_self]
        · rw [Function.update_of_ne hlast, ih (by omega)]
  exact hfold (st.n k) hin

/-- The array of a cell holds its throughputs, whatever it held before. -/
theorem Holds.segment_fill (h : Holds rows st) (k : List Char) (a : ℕ → Value) :
    ExchangeSort.segment (st.n k) (st.fill k a) = (samples rows k).map some := by
  apply List.ext_getElem
  · simp [ExchangeSort.segment, h.n]
  · intro i hi hi'
    have hlen : i < (samples rows k).length := by simpa using hi'
    have hn : i < st.n k := by rwa [h.n]
    simp only [ExchangeSort.segment, List.getElem_map, List.getElem_range', Nat.one_mul]
    rw [fill_eq st k a (by omega) (by omega), Nat.add_comm 1 i]
    exact h.v k i _ (List.getElem?_eq_getElem hlen)

theorem compares_less : ExchangeSort.Compares less (fun x => isNumeric x = true) numOf := by
  intro x y hx hy
  simp [less, hx, hy]

theorem medianOf_eq {c : ℕ} (hc : 0 < c) (a : ℕ → Value) :
    medianOf c a = Ranks.middle ((ExchangeSort.segment c a).map numOf) := by
  have hget {i : ℕ} (hi : i < c) :
      ((ExchangeSort.segment c a).map numOf).getD i 0 = numOf (a (i + 1)) := by
    rw [ExchangeSort.segment, List.map_map, List.getD_eq_getElem _ _ (by simpa using hi),
      List.getElem_map, List.getElem_range', Nat.one_mul, Nat.add_comm 1 i]
    rfl
  have hlen : ((ExchangeSort.segment c a).map numOf).length = c := by
    simp [ExchangeSort.segment]
  rw [medianOf, Ranks.middle, hlen]
  split
  · rename_i hodd
    have hindex : c / 2 + 1 = (c + 1) / 2 := by omega
    rw [hget (by omega), hindex]
  · rename_i heven
    have hindex : c / 2 - 1 + 1 = c / 2 := by omega
    rw [hget (by omega), hget (by omega), hindex]

theorem isNumeric_of_mem {x : List Char} (hx : x ∈ samples rows k) : looksNumeric x = true := by
  obtain ⟨r, -, rfl⟩ := List.mem_map.mp hx
  exact r.numeric

/-- The line of a cell has the median of what is filed under its key. -/
theorem Holds.line_eq (h : Holds rows st) (hk : samples rows k ≠ []) (a : ℕ → Value) :
    st.line k a =
      { key := k
        med := Ranks.median (((samples rows k).map num : List ℚ) : Multiset ℚ)
        samples := (samples rows k).length } := by
  have hpos : 0 < st.n k := by
    rw [h.n]
    exact List.length_pos_iff.mpr hk
  have hnumeric : ∀ x ∈ ExchangeSort.segment (st.n k) (st.fill k a), isNumeric x = true := by
    rw [h.segment_fill]
    intro x hx
    obtain ⟨s, hs, rfl⟩ := List.mem_map.mp hx
    exact isNumeric_of_mem hs
  have hperm := ExchangeSort.segment_sort_perm compares_less hnumeric
  have hsorted := ExchangeSort.segment_sort_sorted compares_less hnumeric
  have hsample : (((ExchangeSort.segment (st.n k)
      (ExchangeSort.sort less (st.n k) (st.fill k a))).map numOf : List ℚ) : Multiset ℚ) =
      ((samples rows k).map num : List ℚ) := by
    rw [Multiset.coe_eq_coe]
    refine (hperm.map numOf).trans (List.Perm.of_eq ?_)
    rw [h.segment_fill, List.map_map]
    rfl
  rw [Vars.line, medianOf_eq hpos, ← Ranks.median_of_sorted hsorted hsample, h.n]

theorem Holds.loop_eq (h : Holds rows st) {order : List (List Char)}
    (horder : ∀ k ∈ order, samples rows k ≠ []) (a : ℕ → Value) :
    st.loop order a = order.map fun k =>
      { key := k
        med := Ranks.median (((samples rows k).map num : List ℚ) : Multiset ℚ)
        samples := (samples rows k).length } := by
  induction order generalizing a with
  | nil => rfl
  | cons k ks ih =>
      obtain ⟨hk, hks⟩ := List.forall_mem_cons.mp horder
      rw [Vars.loop, h.line_eq hk, ih hks, List.map_cons]

/-! ### The summary -/

theorem key_injective {c c' : Cell} (h : c.key = c'.key) : c = c' := by
  have hsplit (c : Cell) : c.key.splitOn '\t' = [c.engine.text, c.workload.text, c.conns.text] := by
    have hjoin : c.key = ['\t'].intercalate [c.engine.text, c.workload.text, c.conns.text] := by
      simp [Cell.key, List.intercalate_cons_cons]
    rw [hjoin, List.splitOn_intercalate]
    · intro s hs
      simp only [List.mem_cons, List.not_mem_nil, or_false] at hs
      rcases hs with rfl | rfl | rfl
      · exact c.engine.no_tab
      · exact c.workload.no_tab
      · exact c.conns.no_tab
    · exact List.cons_ne_nil _ _
  have heq := (hsplit c).symm.trans ((congrArg (·.splitOn '\t') h).trans (hsplit c'))
  simp only [List.cons.injEq, and_true] at heq
  obtain ⟨⟨e, _, _⟩, ⟨w, _, _⟩, ⟨n, _, _⟩⟩ := c
  obtain ⟨⟨e', _, _⟩, ⟨w', _, _⟩, ⟨n', _, _⟩⟩ := c'
  obtain ⟨rfl, rfl, rfl⟩ := heq
  rfl

theorem samples_key (rows : List Row) (c : Cell) :
    samples rows c.key = (clean rows c).map fun r => r.throughput.text := by
  have hkey (r : Row) : r.cell.key = c.key ↔ r.cell = c :=
    ⟨key_injective, fun h => congrArg Cell.key h⟩
  simp only [samples, clean, hkey]

/-- The lines of the summary, in the order of the cells. -/
theorem lines_eq (rows : List Row) {order : List (List Char)}
    (horder : order.Perm (scan (tsv rows)).keys) :
    (report order (tsv rows)).lines = order.map fun k =>
      { key := k
        med := Ranks.median (((samples rows k).map num : List ℚ) : Multiset ℚ)
        samples := (samples rows k).length } := by
  have hholds := holds_scan rows
  apply hholds.loop_eq
  intro k hk
  exact (hholds.keys k).mp (horder.mem_iff.mp hk)

/-- A cell has the line it should have, and no other. -/
theorem filter_lines_eq (rows : List Row) {order : List (List Char)}
    (horder : order.Perm (scan (tsv rows)).keys) (c : Cell) :
    ((report order (tsv rows)).lines.filter fun l => decide (l.key = c.key)) = expected rows c := by
  have hholds := holds_scan rows
  have hnodup : order.Nodup := horder.nodup_iff.mpr hholds.nodup
  have hmem : c.key ∈ order ↔ clean rows c ≠ [] := by
    rw [horder.mem_iff, hholds.keys, samples_key, Ne, List.map_eq_nil_iff]
  have hone : order.filter (fun k => decide (k = c.key)) = if clean rows c = [] then [] else [c.key] := by
    rw [List.filter_eq, hnodup.count]
    split
    · rename_i hin
      rw [if_neg (hmem.mp hin)]
      rfl
    · rename_i hout
      rw [if_pos (not_not.mp (mt hmem.mpr hout))]
      rfl
  rw [lines_eq rows horder, List.filter_map]
  change (order.filter fun k => decide (k = c.key)).map _ = _
  rw [hone, expected]
  split
  · rfl
  · rw [List.map_singleton, samples_key, List.map_map, List.length_map]
    rfl

/-- The summary has one line for each cell with a row without errors, with the median of
these rows and their number; it reports how many rows it has left out; and the line of a
cell depends on the rows of the cell only. -/
theorem summary_reports_medians (rows : List Row) {order : List (List Char)}
    (horder : order.Perm (scan (tsv rows)).keys) :
    (∀ c : Cell, ((report order (tsv rows)).lines.filter fun l => decide (l.key = c.key)) =
      expected rows c) ∧
    (∀ l ∈ (report order (tsv rows)).lines, ∃ c, l.key = c.key ∧ clean rows c ≠ []) ∧
    (report order (tsv rows)).note =
      (if 0 < rows.countP (fun r => decide (0 < r.errs))
        then some (rows.countP fun r => decide (0 < r.errs)) else none) ∧
    ∀ (rows' : List Row) (order' : List (List Char)) (c : Cell),
      order'.Perm (scan (tsv rows')).keys →
      (rows.filter fun r => decide (r.cell = c)) = (rows'.filter fun r => decide (r.cell = c)) →
      ((report order (tsv rows)).lines.filter fun l => decide (l.key = c.key)) =
        (report order' (tsv rows')).lines.filter fun l => decide (l.key = c.key) := by
  refine ⟨fun c => filter_lines_eq rows horder c, ?_, ?_, ?_⟩
  · intro l hl
    rw [lines_eq rows horder] at hl
    obtain ⟨k, hk, rfl⟩ := List.mem_map.mp hl
    have hsamples := ((holds_scan rows).keys k).mp (horder.mem_iff.mp hk)
    obtain ⟨r, hmem, rfl, herrs⟩ := samples_ne_nil_iff.mp hsamples
    have hclean : r ∈ clean rows r.cell := List.mem_filter.mpr ⟨hmem, by simpa using herrs⟩
    exact ⟨r.cell, rfl, List.ne_nil_of_mem hclean⟩
  · rw [Report.note]
    change (if 0 < (scan (tsv rows)).skipped then some (scan (tsv rows)).skipped else none) = _
    rw [(holds_scan rows).skipped]
  · intro rows' order' c horder' hrows
    have hclean (rows : List Row) : clean rows c =
        (rows.filter fun r => decide (r.cell = c)).filter fun r => decide (r.errs = 0) := by
      rw [clean, List.filter_filter]
      simp only [Bool.and_comm]
    rw [filter_lines_eq rows horder, filter_lines_eq rows' horder', expected, expected,
      hclean rows, hclean rows', hrows]

/-- A column without tabs and line ends. -/
def column (s : String) (htab : '\t' ∉ s.toList) (hnewline : '\n' ∉ s.toList) : Column :=
  ⟨s.toList, htab, hnewline⟩

/-- The cell of one engine at eight connections. -/
def getCell : Cell where
  engine := column "redis" (by decide) (by decide)
  workload := column "get" (by decide) (by decide)
  conns := column "8" (by decide) (by decide)

/-- A row of that cell. -/
def getRow (throughput : Column) (errs : ℕ) (h : looksNumeric throughput.text = true) : Row where
  cell := getCell
  gens := column "6" (by decide) (by decide)
  rep := column "1" (by decide) (by decide)
  throughput := throughput
  ops := column "7" (by decide) (by decide)
  errs := errs
  p50 := column "1.0" (by decide) (by decide)
  p99 := column "2.0" (by decide) (by decide)
  p999 := column "3.5" (by decide) (by decide)
  numeric := h

/-- Three rows, the last of which had errors. -/
def threeRows : List Row :=
  [getRow (column "30" (by decide) (by decide)) 0 (by decide),
    getRow (column "9" (by decide) (by decide)) 0 (by decide),
    getRow (column "400" (by decide) (by decide)) 2 (by decide)]

theorem summary_reports_medians_three_rows :
    let r := report (scan (tsv threeRows)).keys (tsv threeRows)
    (r.lines.filter fun l => decide (l.key = getCell.key)) =
      [{ key := getCell.key, med := 39 / 2, samples := 2 }] ∧ r.note = some 1 := by
  obtain ⟨hlines, -, hnote, -⟩ := summary_reports_medians threeRows (List.Perm.refl _)
  have hsample : (([9, 30] : List ℚ) : Multiset ℚ) =
      ((clean threeRows getCell).map Row.opsPerSec : List ℚ) := by
    rw [Multiset.coe_eq_coe]
    decide +kernel
  have hmedian := Ranks.median_of_sorted (by decide) hsample
  refine ⟨(hlines getCell).trans ?_, hnote⟩
  change [Line.mk getCell.key _ 2] = _
  rw [hmedian]
  have hmiddle : Ranks.middle ([9, 30] : List ℚ) = 39 / 2 := by decide +kernel
  rw [hmiddle]

end RostamBench.Netkv.Summary
