import RostamBench.Lib.Ranks
import RostamBench.Lib.Spread
import Mathlib.Algebra.Order.Field.Rat
import Mathlib.Data.List.GetD

/-!
The end-labels of a chart, `decollide` of `charts/mkcharts.py`.

The labels are taken in the order of their positions and pushed apart downwards, then
upwards, and at last all of them are shifted together to where the frame is. The
numbers are elements of an ordered group, so the arithmetic is exact.

The first pass is `Spread.spread`, and it leaves nothing to do for the second one
(`passes_eq_spread`). The labels are therefore apart and in order. The shift moves them
up by as much as the last one is below the frame, whether or not there is room above
the first one: the labels are inside the frame exactly if the positions they are pushed
to are not further apart than the frame is high (`Roomy`).
-/

namespace RostamBench.Netkv.Charts

open Spread

section Model

variable {α : Type*} [AddCommGroup α] [LinearOrder α]

/-- `sorted(range(len(ys)), key=lambda i: ys[i])`, which is stable. -/
def order (ys : List α) : List ℕ :=
  (List.range ys.length).insertionSort fun i j => ys.getD i 0 ≤ ys.getD j 0

/-- The body of the top-down pass. -/
def topDown (minGap : α) (order : List ℕ) (out : List α) (k : ℕ) : List α :=
  let i := order.getD k 0
  let prev := out.getD (order.getD (k - 1) 0) 0
  if k ≠ 0 ∧ out.getD i 0 - prev < minGap then out.set i (prev + minGap) else out

/-- The body of the bottom-up correction. -/
def bottomUp (minGap : α) (order : List ℕ) (out : List α) (k : ℕ) : List α :=
  let i := order.getD k 0
  let j := order.getD (k + 1) 0
  if out.getD j 0 - out.getD i 0 < minGap then out.set i (out.getD j 0 - minGap) else out

def passes (minGap : α) (order : List ℕ) (out : List α) : List α :=
  let out := (List.range order.length).foldl (topDown minGap order) out
  (List.range (order.length - 1)).reverse.foldl (bottomUp minGap order) out

/-- `decollide`; `none` is the error of `min` and `max` on an empty list. -/
def decollide (ys : List α) (minGap lo hi : α) : Option (List α) := do
  let out := passes minGap (order ys) ys
  let least ← out.min?
  let most ← out.max?
  let shift := max 0 (lo - least) - max 0 (most - hi)
  some (out.map (· + shift))

end Model

/-! ### The chart -/

/-- `MT`. -/
def mt : ℚ := 52

/-- `PH`, which is `H - MT - MB`. -/
def ph : ℚ := 400 - 52 - 66

/-- A series of a line chart. It has a last value. -/
structure Series where
  name : String
  vals : List ℚ
  vals_ne_nil : vals ≠ []

/-- `v[-1]`. -/
def Series.last (s : Series) : ℚ := s.vals.getLast s.vals_ne_nil

/-- The height at which a series ends. -/
def endY (ymax : ℚ) (s : Series) : ℚ := mt + ph - s.last / ymax * ph

/-- `lab_y` of `line_chart`; `none` is an error. -/
def labY (ymax : ℚ) (series : List Series) : Option (List ℚ) :=
  if ymax = 0 then none else decollide (series.map (endY ymax)) 15 (mt - 6) (mt + ph + 6)

/-! ### The order -/

variable {α : Type*} [AddCommGroup α] [LinearOrder α] {ys out : List α} {ord : List ℕ}
  {minGap lo hi : α} {i j k m : ℕ}

/-- The position at rank `k`. -/
def pick (ys : List α) (ord : List ℕ) (k : ℕ) : α := ys.getD (ord.getD k 0) 0

theorem order_perm (ys : List α) : (order ys).Perm (List.range ys.length) :=
  List.perm_insertionSort _ _

@[simp] theorem length_order (ys : List α) : (order ys).length = ys.length := by
  simp [order]

theorem nodup_order (ys : List α) : (order ys).Nodup :=
  (order_perm ys).nodup_iff.mpr List.nodup_range

theorem order_lt (hk : k < ys.length) : (order ys).getD k 0 < ys.length := by
  have hlt : k < (order ys).length := by simpa using hk
  rw [List.getD_eq_getElem _ _ hlt]
  exact List.mem_range.mp ((order_perm ys).mem_iff.mp (List.getElem_mem hlt))

/-- Every position has a rank. -/
theorem exists_rank (hi : i < ys.length) : ∃ k < ys.length, (order ys).getD k 0 = i := by
  have hmem : i ∈ order ys := (order_perm ys).mem_iff.mpr (List.mem_range.mpr hi)
  obtain ⟨k, hk, heq⟩ := List.getElem_of_mem hmem
  refine ⟨k, by simpa using hk, ?_⟩
  rw [List.getD_eq_getElem _ _ hk, heq]

theorem pick_le_pick (hij : i ≤ j) (hj : j < ys.length) :
    pick ys (order ys) i ≤ pick ys (order ys) j := by
  rcases Nat.lt_or_eq_of_le hij with hlt | rfl
  · have hsorted : (order ys).Pairwise fun i j => ys.getD i 0 ≤ ys.getD j 0 := by
      have htotal : Std.Total fun i j => ys.getD i 0 ≤ ys.getD j 0 := ⟨fun i j => le_total _ _⟩
      have htrans : IsTrans ℕ fun i j => ys.getD i 0 ≤ ys.getD j 0 :=
        ⟨fun _ _ _ hab hbc => hab.trans hbc⟩
      exact List.pairwise_insertionSort _ _
    have hj' : j < (order ys).length := by simpa using hj
    have hi' : i < (order ys).length := by omega
    rw [pick, pick, List.getD_eq_getElem _ _ hi', List.getD_eq_getElem _ _ hj']
    exact List.pairwise_iff_getElem.mp hsorted i j hi' hj' hlt
  · exact le_refl _

omit [LinearOrder α] in
/-- What is moved is the label at its rank and no other. -/
theorem pick_set (hnodup : ord.Nodup) (hm : m < ord.length) (hk : k < ord.length)
    (hlt : ord.getD m 0 < out.length) (v : α) :
    pick (out.set (ord.getD m 0) v) ord k = if k = m then v else pick out ord k := by
  by_cases hkm : k = m
  · subst hkm
    rw [if_pos rfl, pick, List.getD_eq_getElem?_getD, List.getElem?_set_self hlt, Option.getD_some]
  · have hne : ord.getD m 0 ≠ ord.getD k 0 := by
      intro heq
      rw [List.getD_eq_getElem _ _ hm, List.getD_eq_getElem _ _ hk] at heq
      exact hkm (hnodup.getElem_inj_iff.mp heq).symm
    rw [if_neg hkm, pick, List.getD_eq_getElem?_getD, List.getElem?_set_ne hne,
      ← List.getD_eq_getElem?_getD]
    rfl

/-! ### The passes -/

section Passes

variable [IsOrderedAddMonoid α] (hnodup : ord.Nodup)
  (hlt : ∀ k < ord.length, ord.getD k 0 < out.length)

include hnodup hlt

/-- One step of the first pass moves the label at its rank to below the one before. -/
theorem pick_topDown (hm : m + 1 < ord.length) (hk : k < ord.length) :
    pick (topDown minGap ord out (m + 1)) ord k =
      if k = m + 1 then max (pick out ord (m + 1)) (pick out ord m + minGap)
      else pick out ord k := by
  have hbody : topDown minGap ord out (m + 1) =
      if pick out ord (m + 1) - pick out ord m < minGap
      then out.set (ord.getD (m + 1) 0) (pick out ord m + minGap) else out := by
    simp [topDown, pick]
  rw [hbody]
  split
  · rename_i hclose
    rw [pick_set hnodup hm hk (hlt (m + 1) hm), max_eq_right (sub_lt_iff_lt_add'.mp hclose).le]
  · rename_i hapart
    rw [max_eq_left (le_sub_iff_add_le'.mp (not_lt.mp hapart))]
    split
    · rename_i heq
      rw [heq]
    · rfl

end Passes

theorem length_topDown : (topDown minGap ord out k).length = out.length := by
  simp only [topDown]
  split
  · exact List.length_set
  · rfl

variable [IsOrderedAddMonoid α]

/-- After `m` steps of the first pass the first `m` labels are where they are pushed
to, and the others where they were. -/
structure Pushed (minGap : α) (ord : List ℕ) (ys out : List α) (m : ℕ) : Prop where
  length : out.length = ys.length
  done : ∀ k < m, k < ord.length → pick out ord k = spread minGap (pick ys ord) k
  rest : ∀ k, m ≤ k → k < ord.length → pick out ord k = pick ys ord k

theorem Pushed.step (hnodup : ord.Nodup) (hlt : ∀ k < ord.length, ord.getD k 0 < ys.length)
    (h : Pushed minGap ord ys out m) (hm : m < ord.length) :
    Pushed minGap ord ys (topDown minGap ord out m) (m + 1) := by
  have hlt' : ∀ k < ord.length, ord.getD k 0 < out.length := by
    rw [h.length]
    exact hlt
  have hpick : ∀ k < ord.length, pick (topDown minGap ord out m) ord k =
      if k = m then spread minGap (pick ys ord) m else pick out ord k := by
    intro k hk
    cases m with
    | zero =>
        change pick out ord k = _
        split
        · rename_i hzero
          rw [hzero]
          exact h.rest 0 (le_refl 0) hm
        · rfl
    | succ m =>
        rw [pick_topDown hnodup hlt' hm hk, h.rest (m + 1) (le_refl _) hm,
          h.done m (Nat.lt_succ_self m) (by omega)]
        rfl
  refine ⟨by rw [length_topDown, h.length], ?_, ?_⟩
  · intro k hkm hk
    rw [hpick k hk]
    split
    · rename_i heq
      rw [heq]
    · exact h.done k (by omega) hk
  · intro k hmk hk
    rw [hpick k hk, if_neg (by omega)]
    exact h.rest k (by omega) hk

theorem pushed_foldl (hnodup : ord.Nodup) (hlt : ∀ k < ord.length, ord.getD k 0 < ys.length)
    (hm : m ≤ ord.length) :
    Pushed minGap ord ys ((List.range m).foldl (topDown minGap ord) ys) m := by
  induction m with
  | zero => exact ⟨rfl, by simp, by simp⟩
  | succ m ih =>
      rw [List.range_succ, List.foldl_append]
      exact (ih (by omega)).step hnodup hlt hm

/-- Labels that are apart are left alone by the second pass. -/
theorem foldl_bottomUp {ks : List ℕ}
    (h : ∀ k ∈ ks, pick out ord k + minGap ≤ pick out ord (k + 1)) :
    ks.foldl (bottomUp minGap ord) out = out := by
  induction ks with
  | nil => rfl
  | cons k ks ih =>
      obtain ⟨hk, hks⟩ := List.forall_mem_cons.mp h
      have hstep : bottomUp minGap ord out k = out :=
        if_neg (not_lt.mpr (le_sub_iff_add_le'.mpr hk))
      rw [List.foldl_cons, hstep, ih hks]

/-- The two passes push the labels apart. -/
theorem passes_eq_spread (ys : List α) (minGap : α) :
    (passes minGap (order ys) ys).length = ys.length ∧
      ∀ k < ys.length, pick (passes minGap (order ys) ys) (order ys) k =
        spread minGap (pick ys (order ys)) k := by
  have hpushed : Pushed minGap (order ys) ys
      ((List.range (order ys).length).foldl (topDown minGap (order ys)) ys) (order ys).length := by
    apply pushed_foldl (nodup_order ys) _ (le_refl _)
    intro k hk
    exact order_lt (by simpa using hk)
  rw [passes, foldl_bottomUp]
  · refine ⟨hpushed.length, ?_⟩
    intro k hk
    have hk' : k < (order ys).length := by simpa using hk
    exact hpushed.done k hk' hk'
  · intro k hk
    rw [List.mem_reverse, List.mem_range] at hk
    rw [hpushed.done k (by omega) (by omega), hpushed.done (k + 1) (by omega) (by omega)]
    exact spread_add_le_succ k

/-- Where the label at position `i` is before and after the passes. -/
theorem exists_place (minGap : α) (hi : i < ys.length) :
    ∃ k < ys.length, (order ys).getD k 0 = i ∧ ys[i]? = some (pick ys (order ys) k) ∧
      (passes minGap (order ys) ys)[i]? = some (spread minGap (pick ys (order ys)) k) := by
  obtain ⟨hlen, hspread⟩ := passes_eq_spread ys minGap
  obtain ⟨k, hk, rfl⟩ := exists_rank hi
  refine ⟨k, hk, rfl, ?_, ?_⟩
  · rw [pick, List.getD_eq_getElem _ _ hi, List.getElem?_eq_getElem hi]
  · have hi' : (order ys).getD k 0 < (passes minGap (order ys) ys).length := by omega
    rw [← hspread k hk, pick, List.getD_eq_getElem _ _ hi', List.getElem?_eq_getElem hi']

/-- The passes and the shift, on labels that are there. -/
theorem exists_decollide (hne : ys ≠ []) (minGap lo hi : α) :
    ∃ least most, (passes minGap (order ys) ys).min? = some least ∧
      (passes minGap (order ys) ys).max? = some most ∧
      decollide ys minGap lo hi = some ((passes minGap (order ys) ys).map
        (· + (max 0 (lo - least) - max 0 (most - hi)))) := by
  have hpos : 0 < (passes minGap (order ys) ys).length := by
    rw [(passes_eq_spread ys minGap).1]
    exact List.length_pos_iff.mpr hne
  have hne' : passes minGap (order ys) ys ≠ [] := List.length_pos_iff.mp hpos
  obtain ⟨least, hleast⟩ := Option.isSome_iff_exists.mp (List.isSome_min?_of_ne_nil hne')
  obtain ⟨most, hmost⟩ := Option.isSome_iff_exists.mp (List.isSome_max?_of_ne_nil hne')
  refine ⟨least, most, hleast, hmost, ?_⟩
  rw [decollide, hleast, hmost]
  rfl

omit [IsOrderedAddMonoid α] in
theorem apart_of_ne (hapart : ys.Pairwise fun a b => minGap ≤ |a - b|) (hi : i < ys.length)
    (hj : j < ys.length) (hij : i ≠ j) : minGap ≤ |ys.getD i 0 - ys.getD j 0| := by
  rw [List.getD_eq_getElem _ _ hi, List.getD_eq_getElem _ _ hj]
  rcases Nat.lt_or_gt_of_ne hij with hlt | hgt
  · exact List.pairwise_iff_getElem.mp hapart i j hi hj hlt
  · rw [abs_sub_comm]
    exact List.pairwise_iff_getElem.mp hapart j i hj hi hgt

/-- Labels that are apart already stay where they are. -/
theorem passes_of_apart (hapart : ys.Pairwise fun a b => minGap ≤ |a - b|) :
    passes minGap (order ys) ys = ys := by
  have hnext : ∀ k < ys.length - 1,
      pick ys (order ys) k + minGap ≤ pick ys (order ys) (k + 1) := by
    intro k hk
    have hlt : k < ys.length := by omega
    have hlt' : k + 1 < ys.length := by omega
    have hle := pick_le_pick (Nat.le_succ k) hlt'
    have hranks : (order ys).getD k 0 ≠ (order ys).getD (k + 1) 0 := by
      intro heq
      have hk' : k + 1 < (order ys).length := by simpa using hlt'
      rw [List.getD_eq_getElem _ _ hk', List.getD_eq_getElem _ _ (by omega)] at heq
      exact absurd ((nodup_order ys).getElem_inj_iff.mp heq) (by omega)
    have hgap : minGap ≤ |pick ys (order ys) k - pick ys (order ys) (k + 1)| :=
      apart_of_ne hapart (order_lt hlt) (order_lt hlt') hranks
    rw [abs_sub_comm, abs_of_nonneg (sub_nonneg.mpr hle)] at hgap
    exact le_sub_iff_add_le'.mp hgap
  apply List.ext_getElem?
  intro i
  by_cases hi : i < ys.length
  · obtain ⟨k, hk, -, hys, hout⟩ := exists_place minGap hi
    rw [hys, hout, spread_of_apart hnext (by omega)]
  · have hlen := (passes_eq_spread ys minGap).1
    rw [List.getElem?_eq_none (by omega), List.getElem?_eq_none (by omega)]

/-- The label of the smaller position ends up a gap above the other one. -/
theorem place_lt_of_lt {y z a b : α} (hgap : 0 ≤ minGap) (hy : ys[i]? = some y)
    (hz : ys[j]? = some z) (ha : (passes minGap (order ys) ys)[i]? = some a)
    (hb : (passes minGap (order ys) ys)[j]? = some b) (hlt : y < z) : a + minGap ≤ b := by
  obtain ⟨k, hk, -, hyk, hak⟩ := exists_place minGap (List.getElem?_eq_some_iff.mp hy).1
  obtain ⟨k', hk', -, hzk, hbk⟩ := exists_place minGap (List.getElem?_eq_some_iff.mp hz).1
  obtain rfl : pick ys (order ys) k = y := Option.some.inj (hyk.symm.trans hy)
  obtain rfl : pick ys (order ys) k' = z := Option.some.inj (hzk.symm.trans hz)
  rw [← Option.some.inj (hak.symm.trans ha), ← Option.some.inj (hbk.symm.trans hb)]
  apply spread_add_le hgap
  by_contra hle
  exact absurd (pick_le_pick (not_lt.mp hle) hk) (not_le.mpr hlt)

theorem passes_apart (hgap : 0 ≤ minGap) :
    (passes minGap (order ys) ys).Pairwise fun a b => minGap ≤ |a - b| := by
  have hlen := (passes_eq_spread ys minGap).1
  rw [List.pairwise_iff_getElem]
  intro i j hi hj hij
  have hi' : i < ys.length := by omega
  have hj' : j < ys.length := by omega
  obtain ⟨k, hk, hik, -, hak⟩ := exists_place minGap hi'
  obtain ⟨k', hk', hjk, -, hbk⟩ := exists_place minGap hj'
  have hne : k ≠ k' := by
    rintro rfl
    omega
  rw [List.getElem?_eq_getElem hi] at hak
  rw [List.getElem?_eq_getElem hj] at hbk
  rw [Option.some.inj hak, Option.some.inj hbk, le_abs, neg_sub]
  rcases Nat.lt_or_gt_of_ne hne with hlt | hgt
  · exact Or.inr (le_sub_iff_add_le'.mpr (spread_add_le hgap hlt))
  · exact Or.inl (le_sub_iff_add_le'.mpr (spread_add_le hgap hgt))

/-- The labels that are returned are apart and in order. -/
theorem exists_apart (hne : ys ≠ []) (hgap : 0 ≤ minGap) (lo hi : α) :
    ∃ out, decollide ys minGap lo hi = some out ∧ out.length = ys.length ∧
      out.Pairwise (fun a b => minGap ≤ |a - b|) ∧
      ∀ (i j : ℕ) (y z a b : α), ys[i]? = some y → ys[j]? = some z → out[i]? = some a →
        out[j]? = some b → y < z → a + minGap ≤ b := by
  obtain ⟨least, most, -, -, hout⟩ := exists_decollide hne minGap lo hi
  refine ⟨_, hout, ?_, ?_, ?_⟩
  · rw [List.length_map, (passes_eq_spread ys minGap).1]
  · rw [List.pairwise_map]
    simpa only [add_sub_add_right_eq_sub] using passes_apart hgap
  · intro i j y z a b hy hz ha hb hlt
    rw [List.getElem?_map, Option.map_eq_some_iff] at ha hb
    obtain ⟨a, ha, rfl⟩ := ha
    obtain ⟨b, hb, rfl⟩ := hb
    have hapart := place_lt_of_lt hgap hy hz ha hb hlt
    rw [add_right_comm]
    exact add_le_add_left hapart _

theorem decollide_of_apart (hne : ys ≠ []) (hapart : ys.Pairwise fun a b => minGap ≤ |a - b|)
    (hframe : ∀ y ∈ ys, lo ≤ y ∧ y ≤ hi) : decollide ys minGap lo hi = some ys := by
  obtain ⟨least, most, hleast, hmost, hout⟩ := exists_decollide hne minGap lo hi
  rw [passes_of_apart hapart] at hleast hmost hout
  have hlo : lo ≤ least := (hframe least (List.min?_mem hleast)).1
  have hhi : most ≤ hi := (hframe most (List.max?_mem hmost)).2
  rw [hout, max_eq_left (sub_nonpos.mpr hlo), max_eq_left (sub_nonpos.mpr hhi), sub_zero]
  simp

/-- No two labels overlap, they keep their order, and labels that are apart and inside
the frame are not moved. -/
theorem labels_apart_in_order (hne : ys ≠ []) (hgap : 0 ≤ minGap) (lo hi : α) :
    ∃ out, decollide ys minGap lo hi = some out ∧ out.length = ys.length ∧
      out.Pairwise (fun a b => minGap ≤ |a - b|) ∧
      (∀ (i j : ℕ) (y z a b : α), ys[i]? = some y → ys[j]? = some z → out[i]? = some a →
        out[j]? = some b → y < z → a + minGap ≤ b) ∧
      (ys.Pairwise (fun a b => minGap ≤ |a - b|) → (∀ y ∈ ys, lo ≤ y ∧ y ≤ hi) → out = ys) := by
  obtain ⟨out, hout, hlen, hapart, horder⟩ := exists_apart hne hgap lo hi
  refine ⟨out, hout, hlen, hapart, horder, ?_⟩
  intro hys hframe
  exact Option.some.inj (hout.symm.trans (decollide_of_apart hne hys hframe))

theorem labels_apart_in_order_chart :
    ∃ out, decollide ([334, 331, 52, 331] : List ℚ) 15 46 340 = some out ∧
      out.Pairwise (fun a b => 15 ≤ |a - b|) := by
  have hne : ([334, 331, 52, 331] : List ℚ) ≠ [] := by decide
  have hgap : (0 : ℚ) ≤ 15 := by decide
  obtain ⟨out, hout, -, hapart, -⟩ := labels_apart_in_order hne hgap 46 340
  exact ⟨out, hout, hapart⟩

theorem endY_lt {ymax : ℚ} (hymax : 0 < ymax) {s t : Series} (h : s.last < t.last) :
    endY ymax t < endY ymax s := by
  have hph : 0 < ph := by decide +kernel
  rw [endY, endY]
  gcongr

/-- The labels of a chart do not overlap, and a series that ends higher has its label
further up. -/
theorem labY_apart {ymax : ℚ} (hymax : 0 < ymax) {series : List Series} (hne : series ≠ []) :
    ∃ out, labY ymax series = some out ∧ out.length = series.length ∧
      out.Pairwise (fun a b => 15 ≤ |a - b|) ∧
      ∀ (i j : ℕ) (s t : Series) (a b : ℚ), series[i]? = some s → series[j]? = some t →
        out[i]? = some a → out[j]? = some b → s.last < t.last → b + 15 ≤ a := by
  have hys : series.map (endY ymax) ≠ [] := by simpa using hne
  have hgap : (0 : ℚ) ≤ 15 := by decide
  obtain ⟨out, hout, hlen, hapart, horder⟩ := exists_apart hys hgap (mt - 6) (mt + ph + 6)
  refine ⟨out, ?_, by simpa using hlen, hapart, ?_⟩
  · rw [labY, if_neg hymax.ne', hout]
  · intro i j s t a b hs ht ha hb hlt
    apply horder j i (endY ymax t) (endY ymax s) b a _ _ hb ha (endY_lt hymax hlt)
    · rw [List.getElem?_map, ht, Option.map_some]
    · rw [List.getElem?_map, hs, Option.map_some]

/-! ### The frame -/

/-- The labels in order. -/
def sortedYs (ys : List α) : List α := (order ys).map fun i => ys.getD i 0

omit [IsOrderedAddMonoid α] in
theorem sortedYs_perm (ys : List α) : (sortedYs ys).Perm ys := by
  have hrange : (List.range ys.length).map (fun i => ys.getD i 0) = ys := by
    apply List.ext_getElem
    · simp
    · intro i hi hi'
      rw [List.getElem_map, List.getElem_range, List.getD_eq_getElem _ _ hi']
  have hperm := (order_perm ys).map fun i => ys.getD i 0
  rwa [hrange] at hperm

omit [IsOrderedAddMonoid α] in
@[simp] theorem length_sortedYs (ys : List α) : (sortedYs ys).length = ys.length :=
  (sortedYs_perm ys).length_eq

omit [IsOrderedAddMonoid α] in
theorem getElem_sortedYs (hk : k < (sortedYs ys).length) :
    (sortedYs ys)[k] = pick ys (order ys) k := by
  have hk' : k < (order ys).length := by simpa using hk
  simp only [sortedYs, List.getElem_map]
  rw [pick, List.getD_eq_getElem _ _ hk']

omit [IsOrderedAddMonoid α] in
theorem sortedYs_sorted (ys : List α) : (sortedYs ys).Pairwise (· ≤ ·) := by
  rw [List.pairwise_iff_getElem]
  intro i j hi hj hij
  rw [getElem_sortedYs, getElem_sortedYs]
  exact pick_le_pick hij.le (by simpa using hj)

/-- There is room for every label and those below it, one gap after the other, however
high the first label is. -/
def Roomy (ys : List α) (minGap lo hi : α) : Prop :=
  ∀ y ∈ ys, ∀ z ∈ ys, y + (ys.countP (fun w => decide (y ≤ w)) - 1) • minGap - z ≤ hi - lo

instance (ys : List α) (minGap lo hi : α) : Decidable (Roomy ys minGap lo hi) :=
  inferInstanceAs (Decidable (∀ y ∈ ys, ∀ z ∈ ys,
    y + (ys.countP (fun w => decide (y ≤ w)) - 1) • minGap - z ≤ hi - lo))

omit [IsOrderedAddMonoid α] in
/-- The label at rank `k` and those from it on. -/
theorem length_le_add_countP_pick (hk : k < ys.length) :
    ys.length ≤ k + ys.countP (fun w => decide (pick ys (order ys) k ≤ w)) := by
  have hk' : k < (sortedYs ys).length := by simpa using hk
  have hge := Ranks.length_le_add_countP_ge (sortedYs_sorted ys) hk'
  rwa [getElem_sortedYs, (sortedYs_perm ys).countP_eq, length_sortedYs] at hge

omit [IsOrderedAddMonoid α] in
/-- Every label has a rank with no more labels from it on than are at least as far
down. -/
theorem exists_pick_eq {y : α} (hy : y ∈ ys) :
    ∃ k < ys.length, pick ys (order ys) k = y ∧
      k + ys.countP (fun w => decide (y ≤ w)) ≤ ys.length := by
  obtain ⟨k, hk, hle⟩ := Ranks.exists_add_countP_ge_le (sortedYs_sorted ys)
    ((sortedYs_perm ys).mem_iff.mpr hy)
  obtain ⟨hlt, hvalue⟩ := List.getElem?_eq_some_iff.mp hk
  rw [getElem_sortedYs] at hvalue
  rw [(sortedYs_perm ys).countP_eq, length_sortedYs] at hle
  exact ⟨k, by simpa using hlt, hvalue, hle⟩

omit [IsOrderedAddMonoid α] in
theorem pick_mem (hk : k < ys.length) : pick ys (order ys) k ∈ ys := by
  rw [pick, List.getD_eq_getElem _ _ (order_lt hk)]
  exact List.getElem_mem _

/-- There is room exactly if the first and the last label are not further apart after
the passes than the frame is high. -/
theorem roomy_iff (hne : ys ≠ []) (hgap : 0 ≤ minGap) :
    Roomy ys minGap lo hi ↔
      spread minGap (pick ys (order ys)) (ys.length - 1) - pick ys (order ys) 0 ≤ hi - lo := by
  have hpos : 0 < ys.length := List.length_pos_iff.mpr hne
  constructor
  · intro hroomy
    -- The label that has pushed the last one.
    obtain ⟨k, hk, heq⟩ : ∃ k ≤ ys.length - 1,
        spread minGap (pick ys (order ys)) (ys.length - 1) =
          pick ys (order ys) k + (ys.length - 1 - k) • minGap :=
      exists_spread_eq (ys.length - 1)
    have hlt : k < ys.length := by omega
    have hcount := length_le_add_countP_pick hlt
    have hpush : (ys.length - 1 - k) • minGap ≤
        (ys.countP (fun w => decide (pick ys (order ys) k ≤ w)) - 1) • minGap :=
      nsmul_le_nsmul_left hgap (by omega)
    calc
      spread minGap (pick ys (order ys)) (ys.length - 1) - pick ys (order ys) 0
          = pick ys (order ys) k + (ys.length - 1 - k) • minGap - pick ys (order ys) 0 := by
        rw [heq]
      _ ≤ pick ys (order ys) k +
            (ys.countP (fun w => decide (pick ys (order ys) k ≤ w)) - 1) • minGap -
            pick ys (order ys) 0 :=
        sub_le_sub (add_le_add (le_refl _) hpush) (le_refl _)
      _ ≤ hi - lo := hroomy _ (pick_mem hlt) _ (pick_mem hpos)
  · intro hroom y hy z hz
    obtain ⟨k, hk, rfl, hcount⟩ := exists_pick_eq hy
    obtain ⟨j, hj, rfl, -⟩ := exists_pick_eq hz
    have hpush : (ys.countP (fun w => decide (pick ys (order ys) k ≤ w)) - 1) • minGap ≤
        (ys.length - 1 - k) • minGap :=
      nsmul_le_nsmul_left hgap (by omega)
    have hlast : pick ys (order ys) k + (ys.length - 1 - k) • minGap ≤
        spread minGap (pick ys (order ys)) (ys.length - 1) :=
      add_nsmul_le_spread (by omega)
    calc
      pick ys (order ys) k +
            (ys.countP (fun w => decide (pick ys (order ys) k ≤ w)) - 1) • minGap -
            pick ys (order ys) j
          ≤ spread minGap (pick ys (order ys)) (ys.length - 1) - pick ys (order ys) 0 :=
        sub_le_sub ((add_le_add (le_refl _) hpush).trans hlast) (pick_le_pick (Nat.zero_le j) hj)
      _ ≤ hi - lo := hroom

theorem mem_passes_iff {v : α} :
    v ∈ passes minGap (order ys) ys ↔
      ∃ k < ys.length, spread minGap (pick ys (order ys)) k = v := by
  have hlen := (passes_eq_spread ys minGap).1
  constructor
  · intro hv
    obtain ⟨i, hi, rfl⟩ := List.getElem_of_mem hv
    have hi' : i < ys.length := by omega
    obtain ⟨k, hk, -, -, hplace⟩ := exists_place minGap hi'
    rw [List.getElem?_eq_getElem hi] at hplace
    exact ⟨k, hk, (Option.some.inj hplace).symm⟩
  · rintro ⟨k, hk, rfl⟩
    have hlt : (order ys).getD k 0 < (passes minGap (order ys) ys).length := by
      rw [hlen]
      exact order_lt hk
    rw [← (passes_eq_spread ys minGap).2 k hk, pick, List.getD_eq_getElem _ _ hlt]
    exact List.getElem_mem hlt

/-- The labels are shifted up by as much as the last one is below the frame. -/
theorem decollide_eq (hne : ys ≠ []) (hgap : 0 ≤ minGap) (hlo : ∀ y ∈ ys, lo ≤ y) :
    decollide ys minGap lo hi = some ((passes minGap (order ys) ys).map
      (· - max 0 (spread minGap (pick ys (order ys)) (ys.length - 1) - hi))) := by
  have hpos : 0 < ys.length := List.length_pos_iff.mpr hne
  obtain ⟨least, most, hleast, hmost, hout⟩ := exists_decollide hne minGap lo hi
  have hmost' : most = spread minGap (pick ys (order ys)) (ys.length - 1) := by
    obtain ⟨hmem, hle⟩ := List.max?_eq_some_iff.mp hmost
    obtain ⟨k, hk, rfl⟩ := mem_passes_iff.mp hmem
    apply le_antisymm
    · exact spread_mono hgap (by omega)
    · exact hle _ (mem_passes_iff.mpr ⟨_, by omega, rfl⟩)
  have hleast' : lo ≤ least := by
    obtain ⟨k, hk, rfl⟩ := mem_passes_iff.mp (List.min?_mem hleast)
    exact (hlo _ (pick_mem hk)).trans (le_spread k)
  rw [hout, hmost', max_eq_left (sub_nonpos.mpr hleast')]
  simp only [zero_sub, ← sub_eq_add_neg]

/-- The labels stay inside the frame if and only if there is room. -/
theorem labels_inside_iff (hne : ys ≠ []) (hgap : 0 ≤ minGap)
    (hframe : ∀ y ∈ ys, lo ≤ y ∧ y ≤ hi) :
    ∃ out, decollide ys minGap lo hi = some out ∧
      ((∀ v ∈ out, lo ≤ v ∧ v ≤ hi) ↔ Roomy ys minGap lo hi) := by
  have hpos : 0 < ys.length := List.length_pos_iff.mpr hne
  refine ⟨_, decollide_eq hne hgap fun y hy => (hframe y hy).1, ?_⟩
  rw [roomy_iff hne hgap, List.forall_mem_map]
  generalize hlast : spread minGap (pick ys (order ys)) (ys.length - 1) = last
  constructor
  · intro hinside
    have hfirst : lo ≤ pick ys (order ys) 0 - max 0 (last - hi) :=
      (hinside _ (mem_passes_iff.mpr ⟨0, hpos, rfl⟩)).1
    have hbelow : last - hi ≤ pick ys (order ys) 0 - lo :=
      (le_max_right 0 (last - hi)).trans (le_sub_comm.mp hfirst)
    rwa [sub_le_sub_iff, add_comm (pick ys (order ys) 0), ← sub_le_sub_iff] at hbelow
  · intro hroom v hv
    obtain ⟨k, hk, rfl⟩ := mem_passes_iff.mp hv
    have hfirst : pick ys (order ys) 0 ≤ spread minGap (pick ys (order ys)) k := by
      change spread minGap (pick ys (order ys)) 0 ≤ _
      exact spread_mono hgap (Nat.zero_le k)
    have hkLast : spread minGap (pick ys (order ys)) k ≤ last := by
      rw [← hlast]
      exact spread_mono hgap (by omega)
    have hshift : max 0 (last - hi) ≤ pick ys (order ys) 0 - lo := by
      apply max_le
      · exact sub_nonneg.mpr (hframe _ (pick_mem hpos)).1
      · rwa [sub_le_sub_iff, add_comm (pick ys (order ys) 0), ← sub_le_sub_iff]
    constructor
    · exact le_sub_comm.mp (hshift.trans (sub_le_sub hfirst (le_refl lo)))
    · calc
        spread minGap (pick ys (order ys)) k - max 0 (last - hi) ≤ last - (last - hi) :=
          sub_le_sub hkLast (le_max_right 0 (last - hi))
        _ = hi := sub_sub_cancel last hi

/-- Four labels in the middle. -/
theorem labels_inside_iff_middle :
    ∃ out, decollide ([180, 181, 181, 200] : List ℚ) 15 46 340 = some out ∧
      ∀ v ∈ out, 46 ≤ v ∧ v ≤ 340 := by
  have hne : ([180, 181, 181, 200] : List ℚ) ≠ [] := by decide
  have hgap : (0 : ℚ) ≤ 15 := by decide
  have hframe : ∀ y ∈ ([180, 181, 181, 200] : List ℚ), 46 ≤ y ∧ y ≤ 340 := by decide
  obtain ⟨out, hout, hiff⟩ := labels_inside_iff hne hgap hframe
  exact ⟨out, hout, hiff.mpr (by decide +kernel)⟩

/-- One series at the top of the chart and three at the bottom: the labels would fit, and
the first one leaves the frame. -/
theorem label_above_frame :
    (∀ y ∈ ([52, 334, 334, 334] : List ℚ), 46 ≤ y ∧ y ≤ 340) ∧
      (([52, 334, 334, 334] : List ℚ).length - 1) • (15 : ℚ) ≤ 340 - 46 ∧
      decollide ([52, 334, 334, 334] : List ℚ) 15 46 340 = some [28, 310, 325, 340] ∧
      ¬ ∀ v ∈ ([28, 310, 325, 340] : List ℚ), 46 ≤ v ∧ v ≤ 340 := by
  decide +kernel

example : labY 100 [⟨"Rostam", [100], by decide⟩, ⟨"Valkey", [0], by decide⟩,
    ⟨"Redis", [0], by decide⟩, ⟨"KeyDB", [0], by decide⟩] = some [28, 310, 325, 340] := by
  decide +kernel

end RostamBench.Netkv.Charts
