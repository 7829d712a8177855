import RostamBench.Lib.Ranks
import RostamBench.Netvec.Run
import Mathlib.Data.Rat.Floor
import Mathlib.Tactic.Linarith
import Mathlib.Tactic.Positivity

/-!
The percentiles of a result line.

`pct` is the same function in both generators. It reads the sorted latencies at the
index `p / 100 * len`, rounded down, or at the last index where that is too far. The
product is taken in exact arithmetic here.

`Lib.Ranks` says what an entry of a sorted list is by its index. So the value is an
entry with no more than the share `p` of the list strictly below it and no less than
that share up to it, and a larger `p` reads further on.
-/

namespace RostamBench.Netkv

/-- `int(x)`: rounded towards zero. -/
def truncate (x : ℚ) : ℤ := if x < 0 then ⌈x⌉ else ⌊x⌋

/-- `pct`; `none` is an index out of range. -/
def pct (sorted : List ℤ) (p : ℚ) : Option ℤ :=
  if sorted.length = 0 then some 0
  else
    let i := truncate (p / 100 * sorted.length)
    let i := if (sorted.length : ℤ) ≤ i then (sorted.length : ℤ) - 1 else i
    if 0 ≤ i then sorted[i.toNat]? else none

def us (ns : ℤ) : ℚ := ns / 1000

/-- The three percentiles `result.print` prints. -/
def Result.percentiles (r : Result) : Option (ℚ × ℚ × ℚ) := do
  let p50 ← pct r.lat 50
  let p99 ← pct r.lat 99
  let p999 ← pct r.lat (999 / 10)
  some (us p50, us p99, us p999)

/-! ### The index -/

variable {sorted : List ℤ} {n : ℕ} {p q : ℚ}

/-- The index of a percentile in a list of `n` entries. -/
def rank (n : ℕ) (p : ℚ) : ℕ := min ⌊p / 100 * n⌋₊ (n - 1)

theorem rank_lt (hn : 0 < n) : rank n p < n := by
  rw [rank]
  omega

theorem rank_mono (hpq : p ≤ q) : rank n p ≤ rank n q := by
  have hle : p / 100 * n ≤ q / 100 * n := by gcongr
  exact min_le_min_right _ (Nat.floor_mono hle)

/-- The share of `p` lies between the index and the next one. -/
theorem rank_bounds (hn : 0 < n) (hp : 0 ≤ p) (hp' : p ≤ 100) :
    (rank n p : ℚ) ≤ p / 100 * n ∧ p / 100 * n ≤ rank n p + 1 := by
  have hnonneg : 0 ≤ p / 100 * n := by positivity
  constructor
  · have hfloor : (rank n p : ℚ) ≤ (⌊p / 100 * n⌋₊ : ℚ) := by
      exact_mod_cast min_le_left _ _
    exact hfloor.trans (Nat.floor_le hnonneg)
  · rcases min_choice ⌊p / 100 * n⌋₊ (n - 1) with hmin | hmin
    · rw [rank, hmin]
      exact (Nat.lt_floor_add_one _).le
    · -- The index was too far, and the whole list is up to the last entry.
      have hlast : ((n - 1 : ℕ) : ℚ) + 1 = n := by
        exact_mod_cast Nat.sub_add_cancel hn
      have hshare : p / 100 * n ≤ 1 * n := by
        gcongr
        linarith
      rw [rank, hmin, hlast]
      linarith

theorem pct_nil : pct [] p = some 0 := rfl

theorem pct_eq (hne : sorted ≠ []) (hp : 0 ≤ p) : pct sorted p = sorted[rank sorted.length p]? := by
  have hlen : 0 < sorted.length := List.length_pos_iff.mpr hne
  have hnonneg : 0 ≤ p / 100 * sorted.length := by positivity
  have htrunc : truncate (p / 100 * sorted.length) = (⌊p / 100 * (sorted.length : ℚ)⌋₊ : ℤ) := by
    rw [truncate, if_neg (not_lt.mpr hnonneg), Int.natCast_floor_eq_floor hnonneg]
  rw [pct, if_neg (by omega)]
  simp only [htrunc]
  have hindex : (if (sorted.length : ℤ) ≤ (⌊p / 100 * (sorted.length : ℚ)⌋₊ : ℤ)
      then (sorted.length : ℤ) - 1 else (⌊p / 100 * (sorted.length : ℚ)⌋₊ : ℤ)) =
      (rank sorted.length p : ℤ) := by
    rw [rank]
    split
    · omega
    · omega
  rw [hindex, if_pos (Int.natCast_nonneg _), Int.toNat_natCast]

/-- The entry at the index is a quantile. -/
theorem exists_pct (hsorted : sorted.Pairwise (· ≤ ·)) (hne : sorted ≠ []) (hp : 0 ≤ p)
    (hp' : p ≤ 100) :
    ∃ v, pct sorted p = some v ∧ Ranks.IsQuantile sorted (p / 100 * sorted.length) v := by
  have hlen : 0 < sorted.length := List.length_pos_iff.mpr hne
  have hlt : rank sorted.length p < sorted.length := rank_lt hlen
  obtain ⟨hlo, hhi⟩ := rank_bounds hlen hp hp'
  refine ⟨sorted[rank sorted.length p], ?_, Ranks.isQuantile_getElem hsorted hlt hlo hhi⟩
  rw [pct_eq hne hp, List.getElem?_eq_getElem hlt]

/-- A larger percentile is read further on. -/
theorem pct_mono (hsorted : sorted.Pairwise (· ≤ ·)) (hp : 0 ≤ p) (hpq : p ≤ q) {v w : ℤ}
    (hv : pct sorted p = some v) (hw : pct sorted q = some w) : v ≤ w := by
  rcases eq_or_ne sorted [] with rfl | hne
  · rw [pct_nil] at hv hw
    rw [← Option.some.inj hv, ← Option.some.inj hw]
  · rw [pct_eq hne hp] at hv
    rw [pct_eq hne (hp.trans hpq)] at hw
    obtain ⟨hi, rfl⟩ := List.getElem?_eq_some_iff.mp hv
    obtain ⟨hj, rfl⟩ := List.getElem?_eq_some_iff.mp hw
    exact Ranks.getElem_le_getElem hsorted (rank_mono hpq) hj

theorem us_mono {a b : ℤ} (h : a ≤ b) : us a ≤ us b := by
  rw [us, us]
  gcongr

/-- The percentiles of sorted latencies, be there any or not, are in order. -/
theorem exists_percentiles {r : Result} (hsorted : r.lat.Pairwise (· ≤ ·)) :
    ∃ p50 p99 p999, r.percentiles = some (p50, p99, p999) ∧ p50 ≤ p99 ∧ p99 ≤ p999 := by
  have hsome {p : ℚ} (hp : 0 ≤ p) (hp' : p ≤ 100) : ∃ v, pct r.lat p = some v := by
    rcases eq_or_ne r.lat [] with hnil | hne
    · rw [hnil]
      exact ⟨0, pct_nil⟩
    · obtain ⟨v, hv, -⟩ := exists_pct hsorted hne hp hp'
      exact ⟨v, hv⟩
  obtain ⟨v50, h50⟩ := hsome (p := 50) (by norm_num) (by norm_num)
  obtain ⟨v99, h99⟩ := hsome (p := 99) (by norm_num) (by norm_num)
  obtain ⟨v999, h999⟩ := hsome (p := 999 / 10) (by norm_num) (by norm_num)
  refine ⟨us v50, us v99, us v999, ?_, ?_, ?_⟩
  · simp [Result.percentiles, h50, h99, h999]
  · exact us_mono (pct_mono hsorted (by norm_num) (by norm_num) h50 h99)
  · exact us_mono (pct_mono hsorted (by norm_num) (by norm_num) h99 h999)

theorem lat_sorted {σ : Type*} {R : Rand σ} {keys : List BigEndian.Bytes} {conns : ℕ}
    {dur warm : Int64} {zipf : Bool} {op : Op σ} {env : Env conns} {res : Result}
    (h : run R keys conns dur warm zipf op env = some res) : res.lat.Pairwise (· ≤ ·) := by
  rw [run] at h
  simp only at h
  split at h
  · obtain rfl := Option.some.inj h
    exact Tally.merged_sorted _
  · cases h

end RostamBench.Netkv

namespace RostamBench.Netvec

open BigEndian Netkv

/-- `pct` of `netvec`, a copy. -/
def pct (sorted : List ℤ) (p : ℚ) : Option ℤ := Netkv.pct sorted p

/-- The three percentiles `result.print` of `netvec` prints. -/
def percentiles (r : Result) : Option (ℚ × ℚ × ℚ) := do
  let p50 ← pct r.lat 50
  let p99 ← pct r.lat 99
  let p999 ← pct r.lat (999 / 10)
  some (us p50, us p99, us p999)

theorem lat_sorted {σ : Type*} {R : Netkv.Rand σ} {vecs : List Bytes} {conns : ℕ}
    {points batch duration warmup : ℤ} {env : Env conns} {res : Result}
    (h : run R vecs conns points batch duration warmup env = some res) :
    res.lat.Pairwise (· ≤ ·) := by
  rw [run] at h
  simp only at h
  split at h
  · obtain rfl := Option.some.inj h
    exact Tally.merged_sorted _
  · cases h

/-- The percentiles of both generators are quantiles of their samples, and on every
result line they are in order. -/
theorem percentiles_are_quantiles {σ τ : Type*} (S : Netkv.Rand τ) (R : Netkv.Rand σ) :
    (∀ sorted : List ℤ, sorted.Pairwise (· ≤ ·) → sorted ≠ [] →
      (∀ p : ℚ, 0 ≤ p → p ≤ 100 → ∃ v, Netkv.pct sorted p = some v ∧ pct sorted p = some v ∧
        Ranks.IsQuantile sorted (p / 100 * sorted.length) v) ∧
      ∀ p q : ℚ, 0 ≤ p → p ≤ q → q ≤ 100 → ∀ v w, Netkv.pct sorted p = some v →
        Netkv.pct sorted q = some w → v ≤ w) ∧
    (∀ keys conns dur warm zipf op env res,
      Netkv.run S keys conns dur warm zipf op env = some res →
      ∃ p50 p99 p999, res.percentiles = some (p50, p99, p999) ∧ p50 ≤ p99 ∧ p99 ≤ p999) ∧
    ∀ vecs conns points batch duration warmup env res,
      run R vecs conns points batch duration warmup env = some res →
      ∃ p50 p99 p999, percentiles res = some (p50, p99, p999) ∧ p50 ≤ p99 ∧ p99 ≤ p999 := by
  refine ⟨?_, ?_, ?_⟩
  · intro sorted hsorted hne
    constructor
    · intro p hp hp'
      obtain ⟨v, hv, hquantile⟩ := exists_pct hsorted hne hp hp'
      exact ⟨v, hv, hv, hquantile⟩
    · intro p q hp hpq _ v w hv hw
      exact pct_mono hsorted hp hpq hv hw
  · intro keys conns dur warm zipf op env res h
    exact exists_percentiles (Netkv.lat_sorted h)
  · intro vecs conns points batch duration warmup env res h
    exact exists_percentiles (lat_sorted h)

/-- Four latencies with a tie in the middle, and the run of one operation. -/
theorem percentiles_are_quantiles_four :
    (∃ v, Netkv.pct [1, 2, 2, 5] 50 = some v ∧ pct [1, 2, 2, 5] 50 = some v ∧
      Ranks.IsQuantile [1, 2, 2, 5] ((50 : ℚ) / 100 * (4 : ℕ)) v) ∧
    ∃ res, Netkv.run wordRand (mkKeys 1) 1 10 0 false readOp (oneOp none) = some res ∧
      ∃ p50 p99 p999, res.percentiles = some (p50, p99, p999) ∧ p50 ≤ p99 ∧ p99 ≤ p999 := by
  obtain ⟨hpct, hkv, -⟩ := percentiles_are_quantiles wordRand wordRand
  have hrun : (Netkv.run wordRand (mkKeys 1) 1 10 0 false readOp (oneOp none)).isSome = true := by
    decide
  obtain ⟨res, hres⟩ := Option.isSome_iff_exists.mp hrun
  refine ⟨(hpct [1, 2, 2, 5] (by decide) (by decide)).1 50 (by norm_num) (by norm_num), ?_⟩
  exact ⟨res, hres, hkv _ _ _ _ _ _ _ _ hres⟩

end RostamBench.Netvec
