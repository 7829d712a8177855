import Mathlib.Data.List.Dedup
import Mathlib.Data.List.Perm.Basic
import Mathlib.Data.List.ProdSigma
import Mathlib.Data.Rat.Defs
import Mathlib.Algebra.Group.Nat.Defs
import Mathlib.Algebra.GroupWithZero.Nat

/-!
`netkv/kv_loopback.sh`: the sweep, what it counts as a failure, and the summary.

An engine that does not start is one failure and is skipped; otherwise it is run at
every point, a workload with a number of connections, as often as `REPEATS` says. A
run without a result line is a failure. A run with one gives a row of the TSV, and is
a failure besides when it had errors. The summary is a separate program over the TSV
that leaves out the rows with errors.

The docker, `ss` and `netkv` commands are the environment's (`Env`). So is the order
in which the summary goes through its cells: `cells` lists them in some order.
-/

namespace RostamBench.Netkv.Loopback

/-- What `netkv` prints at the end of a run; an error count is an `int64`. -/
structure Line where
  opsS : ℕ
  ops : ℕ
  errs : ℕ
  p50 : String
  p99 : String
  p999 : String
  errs_lt : errs < 2 ^ 63

/-- A cell of the summary: engine, workload and connections. -/
abbrev Key := String × String × String

/-- A row of the TSV, without its constant columns. -/
structure Row where
  key : Key
  rep : ℕ
  line : Line

/-- The outcome of the listener check. -/
inductive Listeners
  | quiet
  | ssFailed
  | exposed
  deriving DecidableEq, Repr

inductive Check
  | baseline
  | started (engine : String)
  | sweepEnd
  deriving DecidableEq, Repr

structure Env where
  /-- `start_engine` returns zero. -/
  starts : String → Bool
  listeners : Check → Listeners
  /-- The last line of a run with a throughput in it. -/
  result : Key → ℕ → Option Line

/-- `ENGINES`, `CONNS` and `REPEATS`. -/
structure Config where
  engines : List String
  conns : List String
  repeats : ℕ

/-! ### The sweep -/

/-- `FAILURES` and the rows of the TSV. -/
structure Sweep where
  failures : ℕ
  tsv : List Row

/-- `[ "${errs:-0}" -gt 0 ]`: the shell reads a number of 63 bits. -/
def errsGt0 (errs : ℕ) : Bool := decide (errs < 2 ^ 63) && decide (0 < errs)

/-- One repetition of a point. -/
def runRep (env : Env) (k : Key) (st : Sweep) (rep : ℕ) : Sweep :=
  match env.result k rep with
  | some line =>
      let st := { st with tsv := st.tsv ++ [{ key := k, rep := rep, line := line }] }
      if errsGt0 line.errs then { st with failures := st.failures + 1 } else st
  | none => { st with failures := st.failures + 1 }

/-- `point`. -/
def point (env : Env) (cfg : Config) (st : Sweep) (k : Key) : Sweep :=
  (List.range' 1 cfg.repeats).foldl (runRep env k) st

def workloads : List String := ["get", "put"]

/-- The points of an engine, in the order of the two loops. -/
def Config.points (cfg : Config) (e : String) : List Key :=
  workloads.flatMap fun wl => cfg.conns.map fun c => (e, wl, c)

/-- `assert_no_new_public`; an error is an exit. -/
def assertNoNewPublic (env : Env) (check : Check) : Except ℕ Unit :=
  match env.listeners check with
  | .quiet => .ok ()
  | .ssFailed => .error 5
  | .exposed => .error 3

/-- The body of the loop over the engines. -/
def sweepEngine (env : Env) (cfg : Config) (st : Sweep) (e : String) : Except ℕ Sweep :=
  if env.starts e then do
    assertNoNewPublic env (.started e)
    return (cfg.points e).foldl (point env cfg) st
  else .ok { st with failures := st.failures + 1 }

/-- From the baseline snapshot, which cannot find anything new, to the last
check. -/
def sweep (env : Env) (cfg : Config) : Except ℕ Sweep := do
  if env.listeners .baseline = .ssFailed then .error 5
  let st ← cfg.engines.foldlM (sweepEngine env cfg) { failures := 0, tsv := [] }
  assertNoNewPublic env .sweepEnd
  return st

/-! ### The summary -/

/-- `if (a[j]<a[i]) { t=a[i];a[i]=a[j];a[j]=t }`. -/
def exchange (i : ℕ) (a : List ℕ) (j : ℕ) : List ℕ :=
  if a.getD j 0 < a.getD i 0 then (a.set i (a.getD j 0)).set j (a.getD i 0) else a

/-- The two loops that sort the samples of a cell. -/
def sortSamples (a : List ℕ) : List ℕ :=
  (List.range a.length).foldl
    (fun a i => (List.range' (i + 1) (a.length - (i + 1))).foldl (exchange i) a) a

/-- `med`, before it is rounded. -/
def median (a : List ℕ) : ℚ :=
  let a := sortSamples a
  if a.length % 2 = 1 then a.getD ((a.length + 1) / 2 - 1) 0
  else ((a.getD (a.length / 2 - 1) 0 + a.getD (a.length / 2) 0 : ℕ) : ℚ) / 2

structure Cell where
  key : Key
  median : ℚ
  samples : ℕ

/-- The rows that are ranked. -/
def ranked (rows : List Row) : List Row := rows.filter fun row => decide (¬ 0 < row.line.errs)

/-- The throughputs of a cell. -/
def samplesOf (rows : List Row) (k : Key) : List ℕ :=
  (rows.filter fun row => row.key = k).map fun row => row.line.opsS

/-- The lines of the summary, in some order. -/
def cells (rows : List Row) : List Cell :=
  ((ranked rows).map Row.key).dedup.map fun k =>
    { key := k
      median := median (samplesOf (ranked rows) k)
      samples := (samplesOf (ranked rows) k).length }

/-! ### The script -/

structure Outcome where
  exit : ℕ
  summary : List Cell
  /-- The number of rows the summary has left out. -/
  skipped : ℕ

/-- The exit status, and the summary as far as the script gets to it. -/
def script (env : Env) (cfg : Config) : Outcome :=
  match sweep env cfg with
  | .error code => { exit := code, summary := [], skipped := 0 }
  | .ok st =>
      { exit := if 0 < st.failures then 6 else 0
        summary := cells st.tsv
        skipped := st.tsv.length - (ranked st.tsv).length }

/-! ### What a sweep adds up to -/

variable {env : Env} {cfg : Config} {k : Key}

/-- The failures and the rows of one repetition. -/
def repFailures (env : Env) (k : Key) (rep : ℕ) : ℕ :=
  match env.result k rep with
  | some line => if 0 < line.errs then 1 else 0
  | none => 1

def repRows (env : Env) (k : Key) (rep : ℕ) : List Row :=
  match env.result k rep with
  | some line => [{ key := k, rep := rep, line := line }]
  | none => []

def pointFailures (env : Env) (cfg : Config) (k : Key) : ℕ :=
  ((List.range' 1 cfg.repeats).map (repFailures env k)).sum

def pointRows (env : Env) (cfg : Config) (k : Key) : List Row :=
  (List.range' 1 cfg.repeats).flatMap (repRows env k)

def engineFailures (env : Env) (cfg : Config) (e : String) : ℕ :=
  if env.starts e then ((cfg.points e).map (pointFailures env cfg)).sum else 1

def engineRows (env : Env) (cfg : Config) (e : String) : List Row :=
  if env.starts e then (cfg.points e).flatMap (pointRows env cfg) else []

/-- A step that adds to both adds up. -/
theorem foldl_adds {α : Type*} {f : Sweep → α → Sweep} {failures : α → ℕ} {rows : α → List Row}
    (h : ∀ st x, f st x = ⟨st.failures + failures x, st.tsv ++ rows x⟩) (xs : List α)
    (st : Sweep) :
    xs.foldl f st = ⟨st.failures + (xs.map failures).sum, st.tsv ++ xs.flatMap rows⟩ := by
  induction xs generalizing st with
  | nil => simp
  | cons x xs ih =>
      rw [List.foldl_cons, ih, h]
      simp [Nat.add_assoc]

theorem runRep_eq (st : Sweep) (rep : ℕ) :
    runRep env k st rep = ⟨st.failures + repFailures env k rep, st.tsv ++ repRows env k rep⟩ := by
  rw [runRep, repFailures, repRows]
  cases env.result k rep with
  | none => simp
  | some line =>
      have hgt : errsGt0 line.errs = decide (0 < line.errs) := by
        rw [errsGt0, decide_eq_true line.errs_lt, Bool.true_and]
      by_cases herrs : 0 < line.errs
      · simp [hgt, herrs]
      · simp [hgt, herrs]

theorem point_eq (st : Sweep) (k : Key) :
    point env cfg st k = ⟨st.failures + pointFailures env cfg k, st.tsv ++ pointRows env cfg k⟩ :=
  foldl_adds runRep_eq _ st

variable (hquiet : ∀ check, env.listeners check = .quiet)

include hquiet in
theorem sweepEngine_eq (st : Sweep) (e : String) :
    sweepEngine env cfg st e =
      .ok ⟨st.failures + engineFailures env cfg e, st.tsv ++ engineRows env cfg e⟩ := by
  rw [sweepEngine, engineFailures, engineRows]
  by_cases hstarts : env.starts e = true
  · simp only [if_pos hstarts, assertNoNewPublic, hquiet]
    rw [foldl_adds point_eq]
    rfl
  · simp [hstarts]

include hquiet in
theorem sweep_eq :
    sweep env cfg = .ok ⟨(cfg.engines.map (engineFailures env cfg)).sum,
      cfg.engines.flatMap (engineRows env cfg)⟩ := by
  have hfold (st : Sweep) : cfg.engines.foldlM (sweepEngine env cfg) st =
      .ok ⟨st.failures + (cfg.engines.map (engineFailures env cfg)).sum,
        st.tsv ++ cfg.engines.flatMap (engineRows env cfg)⟩ := by
    induction cfg.engines generalizing st with
    | nil => simp; rfl
    | cons e es ih =>
        rw [List.foldlM_cons, sweepEngine_eq hquiet, List.map_cons, List.sum_cons,
          List.flatMap_cons, ← Nat.add_assoc, ← List.append_assoc]
        exact ih _
  rw [sweep, hfold]
  simp [assertNoNewPublic, hquiet]
  rfl

/-! ### Clean sweeps -/

/-- The run gave a row without errors. -/
def CleanRep (env : Env) (k : Key) (rep : ℕ) : Prop :=
  ∃ line, env.result k rep = some line ∧ line.errs = 0

/-- Every engine started and every run gave a row without errors. -/
def Clean (env : Env) (cfg : Config) : Prop :=
  ∀ e ∈ cfg.engines, env.starts e = true ∧
    ∀ k ∈ cfg.points e, ∀ rep ∈ List.range' 1 cfg.repeats, CleanRep env k rep

theorem repFailures_eq_zero {rep : ℕ} : repFailures env k rep = 0 ↔ CleanRep env k rep := by
  rw [repFailures, CleanRep]
  cases env.result k rep with
  | none => simp
  | some line => simp

theorem engineFailures_eq_zero {e : String} :
    engineFailures env cfg e = 0 ↔ env.starts e = true ∧
      ∀ k ∈ cfg.points e, ∀ rep ∈ List.range' 1 cfg.repeats, CleanRep env k rep := by
  have hpoint (k : Key) : pointFailures env cfg k = 0 ↔
      ∀ rep ∈ List.range' 1 cfg.repeats, CleanRep env k rep := by
    rw [pointFailures, List.sum_eq_zero_iff_forall_eq_nat, List.forall_mem_map]
    simp only [repFailures_eq_zero]
  rw [engineFailures]
  by_cases hstarts : env.starts e = true
  · rw [if_pos hstarts, List.sum_eq_zero_iff_forall_eq_nat, List.forall_mem_map]
    simp only [hpoint, hstarts, true_and]
  · simp [hstarts]

theorem failures_eq_zero :
    (cfg.engines.map (engineFailures env cfg)).sum = 0 ↔ Clean env cfg := by
  rw [List.sum_eq_zero_iff_forall_eq_nat, List.forall_mem_map]
  simp only [engineFailures_eq_zero, Clean]

/-! ### The summary of a clean sweep -/

/-- All the points of a sweep. -/
def Config.keys (cfg : Config) : List Key := cfg.engines.flatMap cfg.points

theorem nodup_keys (hengines : cfg.engines.Nodup) (hconns : cfg.conns.Nodup) :
    cfg.keys.Nodup := by
  have hprod : cfg.keys = cfg.engines ×ˢ (workloads ×ˢ cfg.conns) := by
    refine List.flatMap_congr fun e _ => ?_
    simp [Config.points, SProd.sprod, List.product, List.map_flatMap, Function.comp_def]
  rw [hprod]
  exact hengines.product (List.Nodup.product (by decide) hconns)

/-- Items that are listed key by key are counted key by key. -/
theorem countP_flatMap_key {α κ : Type*} [DecidableEq κ] {f : κ → List α} {key : α → κ}
    (hkey : ∀ k, ∀ x ∈ f k, key x = k) {ks : List κ} (hks : ks.Nodup) {k : κ} (hk : k ∈ ks) :
    (ks.flatMap f).countP (fun x => key x = k) = (f k).length := by
  have hall : (f k).countP (fun x => key x = k) = (f k).length :=
    List.countP_eq_length.mpr fun x hx => decide_eq_true (hkey k x hx)
  have hnone {k' : κ} (hne : k' ≠ k) : (f k').countP (fun x => key x = k) = 0 :=
    List.countP_eq_zero.mpr fun x hx heq => hne ((hkey k' x hx).symm.trans (of_decide_eq_true heq))
  induction ks with
  | nil => simp at hk
  | cons k' ks ih =>
      obtain ⟨hk', hks⟩ := List.nodup_cons.mp hks
      rw [List.flatMap_cons, List.countP_append]
      rcases List.mem_cons.mp hk with rfl | hk
      · -- The key does not come again.
        have hrest : (ks.flatMap f).countP (fun x => key x = k) = 0 := by
          refine List.countP_eq_zero.mpr fun x hx heq => hk' ?_
          obtain ⟨k', hmem, hx⟩ := List.mem_flatMap.mp hx
          rw [← of_decide_eq_true heq, hkey k' x hx]
          exact hmem
        rw [hall, hrest, Nat.add_zero]
      · have hne : k' ≠ k := by
          rintro rfl
          exact hk' hk
        rw [hnone hne, Nat.zero_add]
        exact ih hks hk

theorem key_of_mem_pointRows {row : Row} (h : row ∈ pointRows env cfg k) : row.key = k := by
  obtain ⟨rep, -, h⟩ := List.mem_flatMap.mp h
  rw [repRows] at h
  cases hres : env.result k rep with
  | none => simp [hres] at h
  | some line =>
      obtain rfl : row = { key := k, rep := rep, line := line } := by simpa [hres] using h
      rfl

section CleanSweep

variable (hclean : Clean env cfg)

include hclean

theorem cleanRep_of_mem (hk : k ∈ cfg.keys) {rep : ℕ} (hrep : rep ∈ List.range' 1 cfg.repeats) :
    CleanRep env k rep := by
  obtain ⟨e, he, hk⟩ := List.mem_flatMap.mp hk
  exact (hclean e he).2 k hk rep hrep

theorem rows_eq :
    cfg.engines.flatMap (engineRows env cfg) = cfg.keys.flatMap (pointRows env cfg) := by
  rw [Config.keys, List.flatMap_assoc]
  refine List.flatMap_congr fun e he => ?_
  rw [engineRows, if_pos (hclean e he).1]

theorem length_pointRows (hk : k ∈ cfg.keys) : (pointRows env cfg k).length = cfg.repeats := by
  have hone : ∀ rep ∈ List.range' 1 cfg.repeats, (repRows env k rep).length = 1 := by
    intro rep hrep
    obtain ⟨line, hres, -⟩ := cleanRep_of_mem hclean hk hrep
    simp [repRows, hres]
  rw [pointRows, List.length_flatMap, List.map_congr_left hone]
  simp

theorem ranked_rows :
    ranked (cfg.keys.flatMap (pointRows env cfg)) = cfg.keys.flatMap (pointRows env cfg) := by
  refine List.filter_eq_self.mpr fun row hrow => ?_
  obtain ⟨k, hk, hrow⟩ := List.mem_flatMap.mp hrow
  obtain ⟨rep, hrep, hrow⟩ := List.mem_flatMap.mp hrow
  obtain ⟨line, hres, herrs⟩ := cleanRep_of_mem hclean hk hrep
  obtain rfl : row = { key := k, rep := rep, line := line } := by simpa [repRows, hres] using hrow
  simp [herrs]

theorem mem_keys_iff (hrep : 1 ≤ cfg.repeats) :
    k ∈ (cfg.keys.flatMap (pointRows env cfg)).map Row.key ↔ k ∈ cfg.keys := by
  constructor
  · intro h
    obtain ⟨row, hrow, rfl⟩ := List.mem_map.mp h
    obtain ⟨k, hk, hrow⟩ := List.mem_flatMap.mp hrow
    rw [key_of_mem_pointRows hrow]
    exact hk
  · intro hk
    have hlen : 0 < (pointRows env cfg k).length := by
      rw [length_pointRows hclean hk]
      exact hrep
    obtain ⟨row, hrow⟩ := List.exists_mem_of_length_pos hlen
    exact List.mem_map.mpr
      ⟨row, List.mem_flatMap.mpr ⟨k, hk, hrow⟩, key_of_mem_pointRows hrow⟩

/-- One line for each point, with as many samples as there were repetitions. -/
theorem cells_perm (hengines : cfg.engines.Nodup) (hconns : cfg.conns.Nodup)
    (hrep : 1 ≤ cfg.repeats) :
    ((cells (cfg.keys.flatMap (pointRows env cfg))).map fun cell => (cell.key, cell.samples)).Perm
      (cfg.keys.map fun k => (k, cfg.repeats)) := by
  have hnodup := nodup_keys hengines hconns
  have hkeys : ((cfg.keys.flatMap (pointRows env cfg)).map Row.key).dedup.Perm cfg.keys := by
    rw [List.perm_ext_iff_of_nodup (List.nodup_dedup _) hnodup]
    intro k
    rw [List.mem_dedup, mem_keys_iff hclean hrep]
  have hsamples : ∀ k ∈ cfg.keys,
      (samplesOf (cfg.keys.flatMap (pointRows env cfg)) k).length = cfg.repeats := by
    intro k hk
    rw [samplesOf, List.length_map, ← List.countP_eq_length_filter,
      countP_flatMap_key (fun _ _ => key_of_mem_pointRows) hnodup hk, length_pointRows hclean hk]
  rw [cells, ranked_rows hclean, List.map_map]
  refine (hkeys.map _).trans (List.Perm.of_eq ?_)
  refine List.map_congr_left fun k hk => ?_
  simp only [Function.comp_apply, hsamples k hk]

end CleanSweep

include hquiet in
theorem script_eq :
    script env cfg =
      { exit := if 0 < (cfg.engines.map (engineFailures env cfg)).sum then 6 else 0
        summary := cells (cfg.engines.flatMap (engineRows env cfg))
        skipped := (cfg.engines.flatMap (engineRows env cfg)).length -
          (ranked (cfg.engines.flatMap (engineRows env cfg))).length } := by
  rw [script, sweep_eq hquiet]

/-- A partial sweep never passes as a clean one: the exit status says which it was, and
the summary of a clean sweep is complete. -/
theorem script_exit_iff_clean (env : Env) (cfg : Config) (hengines : cfg.engines.Nodup)
    (hconns : cfg.conns.Nodup) (hrep : 1 ≤ cfg.repeats)
    (hquiet : ∀ check, env.listeners check = .quiet) :
    ((script env cfg).exit = 0 ↔ Clean env cfg) ∧
    (¬ Clean env cfg → (script env cfg).exit = 6) ∧
    (Clean env cfg → ∀ lines : List Cell, lines.Perm (script env cfg).summary →
      (lines.map fun cell => (cell.key, cell.samples)).Perm
        (cfg.keys.map fun k => (k, cfg.repeats))) := by
  have hfail : 0 < (cfg.engines.map (engineFailures env cfg)).sum ↔ ¬ Clean env cfg := by
    rw [Nat.pos_iff_ne_zero, Ne, failures_eq_zero]
  have hexit : (script env cfg).exit =
      if 0 < (cfg.engines.map (engineFailures env cfg)).sum then 6 else 0 := by
    rw [script_eq hquiet]
  refine ⟨?_, ?_, ?_⟩
  · rw [hexit]
    constructor
    · intro h
      by_contra hnot
      rw [if_pos (hfail.mpr hnot)] at h
      omega
    · intro hclean
      exact if_neg fun h => hfail.mp h hclean
  · intro hnot
    rw [hexit, if_pos (hfail.mpr hnot)]
  · intro hclean lines hlines
    rw [script_eq hquiet, rows_eq hclean] at hlines
    exact (hlines.map _).trans (cells_perm hclean hengines hconns hrep)

/-- An environment where every run gives the same result and the engines named start. -/
def steady (up : List String) : Env where
  starts e := decide (e ∈ up)
  listeners _ := .quiet
  result _ _ := some
    { opsS := 90000, ops := 900000, errs := 0, p50 := "81.0", p99 := "140.2", p999 := "305.5"
      errs_lt := by decide }

theorem script_exit_steady :
    let cfg : Config := { engines := ["rostam", "redis"], conns := ["8", "64"], repeats := 3 }
    (script (steady ["rostam", "redis"]) cfg).exit = 0 ∧
      ((script (steady ["rostam", "redis"]) cfg).summary.map fun cell =>
        (cell.key, cell.samples)).Perm (cfg.keys.map fun k => (k, 3)) ∧
      (script (steady ["rostam"]) cfg).exit = 6 := by
  intro cfg
  have hclean : Clean (steady ["rostam", "redis"]) cfg := by
    intro e he
    exact ⟨decide_eq_true he, fun k _ rep _ => ⟨_, rfl, rfl⟩⟩
  have hdown : ¬ Clean (steady ["rostam"]) cfg := by
    intro h
    exact absurd (h "redis" (by decide)).1 (by decide)
  obtain ⟨hexit, -, hsummary⟩ := script_exit_iff_clean (steady ["rostam", "redis"]) cfg
    (by decide) (by decide) (by decide) (fun _ => rfl)
  obtain ⟨-, hpartial, -⟩ := script_exit_iff_clean (steady ["rostam"]) cfg
    (by decide) (by decide) (by decide) (fun _ => rfl)
  exact ⟨hexit.mpr hclean, hsummary hclean _ (List.Perm.refl _), hpartial hdown⟩

end RostamBench.Netkv.Loopback
