import RostamBench.Netkv.Loopback
import RostamBench.Netkv.Summary

/-!
The summary of a sweep.

`Loopback` has the rows of the sweep as values and lists the cells of the summary;
`Summary` runs the `awk` program on the text of the TSV. Here the rows are written to
the TSV, and the program prints the cells `Loopback` lists, in the order it takes them
in (`lines_perm`), and counts the rows it leaves out (`skipped_eq`).

Both sort the samples of a cell by exchange, `Loopback` in a list that begins at `0`
and the program in an array that begins at `1`. The loops go through the same steps
(`entries_sortSamples`), so that `Lib.ExchangeSort` is about both.
-/

namespace RostamBench.Netkv.Loopback

open Json (natText)
open Summary (Column report scan tsv samples holds_scan lines_eq key_injective)

/-! ### The sort -/

variable {a : List ℕ} {i j : ℕ}

/-- The samples as the entries of an array, from `1` on. -/
def entries (a : List ℕ) : ℕ → ℕ
  | 0 => 0
  | k + 1 => a.getD k 0

/-- `x < y`. -/
def less (x y : ℕ) : Bool := decide (x < y)

theorem entries_set (hi : i < a.length) (v : ℕ) :
    entries (a.set i v) = Function.update (entries a) (i + 1) v := by
  ext k
  cases k with
  | zero => rfl
  | succ k =>
      rw [entries, List.getD_eq_getElem?_getD]
      rcases eq_or_ne i k with rfl | hne
      · rw [Function.update_self, List.getElem?_set_self hi, Option.getD_some]
      · rw [Function.update_of_ne (by omega), List.getElem?_set_ne hne, entries,
          List.getD_eq_getElem?_getD]

theorem length_exchange (i : ℕ) (a : List ℕ) (j : ℕ) : (exchange i a j).length = a.length := by
  rw [exchange]
  split
  · rw [List.length_set, List.length_set]
  · rfl

theorem entries_exchange (hi : i < a.length) (hj : j < a.length) :
    entries (exchange i a j) = ExchangeSort.exchange less (i + 1) (entries a) (j + 1) := by
  have hj' : j < (a.set i (a.getD j 0)).length := by rwa [List.length_set]
  rw [exchange, ExchangeSort.exchange]
  change entries (if entries a (j + 1) < entries a (i + 1) then _ else a) = _
  by_cases hless : entries a (j + 1) < entries a (i + 1)
  · have htrue : less (entries a (j + 1)) (entries a (i + 1)) = true := decide_eq_true hless
    rw [if_pos hless, if_pos htrue, entries_set hj', entries_set hi]
    rfl
  · have hfalse : ¬ less (entries a (j + 1)) (entries a (i + 1)) = true := by simpa [less] using hless
    rw [if_neg hless, if_neg hfalse]

/-- The loop over the entries that follow `i`. -/
theorem entries_foldl_exchange {js : List ℕ} (hi : i < a.length) (hjs : ∀ j ∈ js, j < a.length) :
    entries (js.foldl (exchange i) a) =
        (js.map (· + 1)).foldl (ExchangeSort.exchange less (i + 1)) (entries a) ∧
      (js.foldl (exchange i) a).length = a.length := by
  induction js generalizing a with
  | nil => exact ⟨rfl, rfl⟩
  | cons j js ih =>
      obtain ⟨hj, hjs⟩ := List.forall_mem_cons.mp hjs
      have hlen := length_exchange i a j
      rw [← hlen] at hjs
      obtain ⟨hentries, hlength⟩ := ih (by rwa [hlen]) hjs
      rw [List.foldl_cons, List.map_cons, List.foldl_cons, hlength, hentries,
        entries_exchange hi hj]
      exact ⟨rfl, hlen⟩

theorem entries_foldl {is : List ℕ} (his : ∀ i ∈ is, i < a.length) :
    entries (is.foldl (fun a i => (List.range' (i + 1) (a.length - (i + 1))).foldl (exchange i) a) a) =
        (is.map (· + 1)).foldl (ExchangeSort.inner less a.length) (entries a) ∧
      (is.foldl (fun a i => (List.range' (i + 1) (a.length - (i + 1))).foldl (exchange i) a)
        a).length = a.length := by
  induction is generalizing a with
  | nil => exact ⟨rfl, rfl⟩
  | cons i is ih =>
      obtain ⟨hi, his⟩ := List.forall_mem_cons.mp his
      have hjs : ∀ j ∈ List.range' (i + 1) (a.length - (i + 1)), j < a.length := by
        intro j hj
        rw [List.mem_range'_1] at hj
        omega
      obtain ⟨hinner, hlen⟩ := entries_foldl_exchange hi hjs
      rw [← hlen] at his
      obtain ⟨hentries, hlength⟩ := ih his
      rw [List.foldl_cons, List.map_cons, List.foldl_cons, hlength, hentries, hinner, hlen]
      refine ⟨?_, rfl⟩
      rw [ExchangeSort.inner, ← List.range'_succ_left]

theorem entries_sortSamples (a : List ℕ) :
    entries (sortSamples a) = ExchangeSort.sort less a.length (entries a) ∧
      (sortSamples a).length = a.length := by
  have hall : ∀ i ∈ List.range a.length, i < a.length := fun i hi => List.mem_range.mp hi
  obtain ⟨hentries, hlen⟩ := entries_foldl hall
  refine ⟨?_, hlen⟩
  rw [sortSamples, hentries, ExchangeSort.sort, List.range_eq_range', ← List.range'_succ_left]

theorem segment_entries (a : List ℕ) : ExchangeSort.segment a.length (entries a) = a := by
  apply List.ext_getElem
  · simp [ExchangeSort.segment]
  · intro k hk hk'
    simp only [ExchangeSort.segment, List.getElem_map, List.getElem_range', Nat.one_mul]
    rw [Nat.add_comm 1 k, entries, List.getD_eq_getElem _ _ hk']

theorem compares_less : ExchangeSort.Compares less (fun _ => True) id := by
  intro x y _ _
  simp [less]

theorem segment_sortSamples (a : List ℕ) :
    ExchangeSort.segment a.length (ExchangeSort.sort less a.length (entries a)) = sortSamples a := by
  obtain ⟨hentries, hlen⟩ := entries_sortSamples a
  rw [← hentries, ← hlen, segment_entries]

theorem sortSamples_perm (a : List ℕ) : (sortSamples a).Perm a := by
  have hperm := ExchangeSort.segment_sort_perm compares_less (n := a.length) (a := entries a)
    fun _ _ => trivial
  rwa [segment_sortSamples, segment_entries] at hperm

theorem sortSamples_sorted (a : List ℕ) : (sortSamples a).Pairwise (· ≤ ·) := by
  have hsorted := ExchangeSort.segment_sort_sorted compares_less (n := a.length) (a := entries a)
    fun _ _ => trivial
  rwa [segment_sortSamples, List.map_id] at hsorted

/-- `med` is the median. -/
theorem median_eq (a : List ℕ) :
    median a = Ranks.median ((a.map Nat.cast : List ℚ) : Multiset ℚ) := by
  have hsorted : ((sortSamples a).map (Nat.cast : ℕ → ℚ)).Pairwise (· ≤ ·) := by
    rw [List.pairwise_map]
    exact (sortSamples_sorted a).imp fun h => Nat.cast_le.mpr h
  have hperm : (((sortSamples a).map Nat.cast : List ℚ) : Multiset ℚ) = (a.map Nat.cast : List ℚ) :=
    Multiset.coe_eq_coe.mpr ((sortSamples_perm a).map Nat.cast)
  have hget (k : ℕ) :
      ((sortSamples a).map (Nat.cast : ℕ → ℚ)).getD k 0 = ((sortSamples a).getD k 0 : ℕ) := by
    rw [← Nat.cast_zero, List.getD_map]
  rw [Ranks.median_of_sorted hsorted hperm, median, Ranks.middle]
  simp only [hget, List.length_map]
  split
  · rename_i hodd
    have hindex : ((sortSamples a).length + 1) / 2 - 1 = (sortSamples a).length / 2 := by omega
    rw [hindex]
  · rw [Nat.cast_add]

/-! ### The rows -/

/-- The texts of a row are single columns. -/
def Row.Plain (r : Row) : Prop :=
  ∀ s ∈ [r.key.1, r.key.2.1, r.key.2.2, r.line.p50, r.line.p99, r.line.p999],
    '\t' ∉ s.toList ∧ '\n' ∉ s.toList

structure PlainRow extends Row where
  plain : toRow.Plain

def PlainRow.column (r : PlainRow) (s : String)
    (hs : s ∈ [r.key.1, r.key.2.1, r.key.2.2, r.line.p50, r.line.p99, r.line.p999]) : Column :=
  ⟨s.toList, (r.plain s hs).1, (r.plain s hs).2⟩

def natColumn (n : ℕ) : Column :=
  ⟨natText n, ResultLine.not_mem_natText (by decide) n, ResultLine.not_mem_natText (by decide) n⟩

/-- The row as it is written to the TSV. -/
def PlainRow.written (gens : Column) (r : PlainRow) : Summary.Row where
  cell :=
    { engine := r.column r.key.1 (by simp)
      workload := r.column r.key.2.1 (by simp)
      conns := r.column r.key.2.2 (by simp) }
  gens := gens
  rep := natColumn r.rep
  throughput := natColumn r.line.opsS
  ops := natColumn r.line.ops
  errs := r.line.errs
  p50 := r.column r.line.p50 (by simp)
  p99 := r.column r.line.p99 (by simp)
  p999 := r.column r.line.p999 (by simp)
  numeric := Awk.looksNumeric_toDigits r.line.opsS

/-- The three columns of a cell. -/
def keyText (k : Key) : List Char :=
  k.1.toList ++ '\t' :: (k.2.1.toList ++ '\t' :: k.2.2.toList)

/-- The line of a cell. -/
def Cell.line (c : Cell) : Summary.Line where
  key := keyText c.key
  med := c.median
  samples := c.samples

variable {gens : Column} {rows : List PlainRow}

theorem key_written (r : PlainRow) : (r.written gens).cell.key = keyText r.key := rfl

theorem keyText_inj {r r' : PlainRow} (h : keyText r.key = keyText r'.key) : r.key = r'.key := by
  have hcell : (r.written (natColumn 0)).cell = (r'.written (natColumn 0)).cell := key_injective h
  have hengine := congrArg (fun c => c.engine.text) hcell
  have hworkload := congrArg (fun c => c.workload.text) hcell
  have hconns := congrArg (fun c => c.conns.text) hcell
  exact Prod.ext (String.toList_inj.mp hengine)
    (Prod.ext (String.toList_inj.mp hworkload) (String.toList_inj.mp hconns))

/-- What the program files under the key of a row are the throughputs of its cell. -/
theorem samples_written (r : PlainRow) :
    samples (rows.map (PlainRow.written gens)) (keyText r.key) =
      (samplesOf (ranked (rows.map PlainRow.toRow)) r.key).map natText := by
  have hkey (r' : PlainRow) : keyText r'.key = keyText r.key ↔ r'.key = r.key :=
    ⟨keyText_inj, fun h => congrArg keyText h⟩
  rw [samples, samplesOf, ranked, List.filter_map, List.filter_map, List.filter_map,
    List.filter_filter, List.map_map, List.map_map, List.map_map]
  congr 1
  apply List.filter_congr
  intro r' _
  have herrs : (r'.written gens).errs = r'.line.errs := rfl
  simp [key_written, hkey, herrs]

/-! ### The cells -/

/-- The keys of the cells. -/
def cellKeys (rows : List PlainRow) : List Key :=
  ((ranked (rows.map PlainRow.toRow)).map Row.key).dedup

theorem mem_cellKeys {k : Key} :
    k ∈ cellKeys rows ↔ ∃ r ∈ rows, r.line.errs = 0 ∧ r.key = k := by
  rw [cellKeys, List.mem_dedup, List.mem_map]
  constructor
  · rintro ⟨row, hrow, rfl⟩
    obtain ⟨hrow, herrs⟩ := List.mem_filter.mp hrow
    obtain ⟨r, hr, rfl⟩ := List.mem_map.mp hrow
    exact ⟨r, hr, by simpa using herrs, rfl⟩
  · rintro ⟨r, hr, herrs, rfl⟩
    refine ⟨r.toRow, List.mem_filter.mpr ⟨List.mem_map_of_mem hr, ?_⟩, rfl⟩
    simp [herrs]

/-- The subscripts of `n` are the keys of the cells. -/
theorem keys_perm (gens : Column) (rows : List PlainRow) :
    (scan (tsv (rows.map (PlainRow.written gens)))).keys.Perm ((cellKeys rows).map keyText) := by
  have hholds := holds_scan (rows.map (PlainRow.written gens))
  have hnodup : ((cellKeys rows).map keyText).Nodup := by
    apply List.Nodup.map_on _ (List.nodup_dedup _)
    intro k hk k' hk' heq
    obtain ⟨r, -, -, rfl⟩ := mem_cellKeys.mp hk
    obtain ⟨r', -, -, rfl⟩ := mem_cellKeys.mp hk'
    exact keyText_inj heq
  rw [List.perm_ext_iff_of_nodup hholds.nodup hnodup]
  intro text
  rw [hholds.keys, Summary.samples_ne_nil_iff, List.mem_map]
  constructor
  · rintro ⟨w, hw, rfl, herrs⟩
    obtain ⟨r, hr, rfl⟩ := List.mem_map.mp hw
    exact ⟨r.key, mem_cellKeys.mpr ⟨r, hr, herrs, rfl⟩, rfl⟩
  · rintro ⟨k, hk, rfl⟩
    obtain ⟨r, hr, herrs, rfl⟩ := mem_cellKeys.mp hk
    exact ⟨r.written gens, List.mem_map_of_mem hr, rfl, herrs⟩

/-- The program prints the line of every cell. -/
theorem lines_perm {order : List (List Char)}
    (horder : order.Perm (scan (tsv (rows.map (PlainRow.written gens)))).keys) :
    (report order (tsv (rows.map (PlainRow.written gens)))).lines.Perm
      ((cells (rows.map PlainRow.toRow)).map Cell.line) := by
  rw [lines_eq _ horder]
  refine ((horder.trans (keys_perm gens rows)).map _).trans (List.Perm.of_eq ?_)
  rw [List.map_map, cells, List.map_map]
  apply List.map_congr_left
  intro k hk
  obtain ⟨r, -, -, rfl⟩ := mem_cellKeys.mp hk
  have hnum : Awk.num ∘ natText = (Nat.cast : ℕ → ℚ) := funext Awk.num_toDigits
  simp only [Function.comp_apply, samples_written, Cell.line, median_eq, List.map_map, hnum,
    List.length_map]

theorem skipped_eq (gens : Column) (rows : List PlainRow) :
    (scan (tsv (rows.map (PlainRow.written gens)))).skipped =
      (rows.map PlainRow.toRow).length - (ranked (rows.map PlainRow.toRow)).length := by
  rw [(holds_scan _).skipped, List.countP_map]
  have hsplit := (rows.map PlainRow.toRow).length_eq_countP_add_countP
    fun row => decide (0 < row.line.errs)
  have hranked : (ranked (rows.map PlainRow.toRow)).length =
      (rows.map PlainRow.toRow).countP fun row => ¬ decide (0 < row.line.errs) = true := by
    rw [ranked, ← List.countP_eq_length_filter]
    simp
  have hskipped : (rows.map PlainRow.toRow).countP (fun row => decide (0 < row.line.errs)) =
      rows.countP ((fun w => decide (0 < w.errs)) ∘ PlainRow.written gens) := List.countP_map
  omega

end RostamBench.Netkv.Loopback
