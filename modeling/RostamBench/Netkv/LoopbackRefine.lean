import RostamBench.Netkv.LoopbackRun
import RostamBench.Netkv.SweepSummary

/-!
The script over texts does what `Loopback` does over values.

When no signal comes in, the answers of the commands are a `Machine`. A run of `netkv`
prints its result line or nothing. The script keeps the rows of `Loopback.sweep` as the
text of the TSV (`Sim`), goes through the same rounds, and ends with the same status; what
its summary prints of the TSV are the cells of `Loopback.script`.
-/

namespace RostamBench.Netkv.LoopbackRun

open Effects Shell Listeners ResultLine
open Loopback (Check Key PlainRow)
open Json (natText)
open Summary (Column)

/-! ### What the commands answer -/

/-- A run of `netkv` with a result. -/
structure Measured where
  eng : Engine
  setup : Setup
  conns : ℤ
  readPct : ℤ
  zipf : Bool
  stats : Stats
  errs_lt : stats.errs < 2 ^ 63

/-- What `netkv` writes to its standard output. -/
def output : Option Measured → List Char
  | some r => print r.eng r.setup r.conns (label r.readPct r.zipf) r.stats ++ ['\n']
  | none => []

/-- The answers of the commands. -/
structure Machine where
  conf : List Char
  up : String → Bool
  ps : String → Bool
  ss : Check → Snapshot
  netkv : Key → ℕ → Option Measured

def Machine.reply (m : Machine) : (c : Cmd) → c.Reply
  | .conf => m.conf
  | .remove | .drun _ | .summary => ()
  | .waitUp e => m.up e
  | .ps e => m.ps e
  | .ss c => m.ss c
  | .netkv k rep => output (m.netkv k rep)

/-- No signal comes in. -/
def Machine.act (m : Machine) : Act Unit Answer := fun c s => (s, (m.reply c, none))

/-! ### The same over values -/

def Measured.line (r : Measured) : Loopback.Line where
  opsS := r.stats.throughput
  ops := r.stats.ops
  errs := r.stats.errs
  p50 := String.ofList r.stats.p50.text
  p99 := String.ofList r.stats.p99.text
  p999 := String.ofList r.stats.p999.text
  errs_lt := r.errs_lt

/-- The baseline snapshot, as it is compared with. -/
def Machine.listeners (m : Machine) (loc : LineOrder) (c : Check) : Loopback.Listeners :=
  match publicListeners loc (m.ss .baseline) with
  | none => .ssFailed
  | some out => if c = .baseline then .quiet else check loc (substitute out) (m.ss c)

def Machine.env (m : Machine) (loc : LineOrder) : Loopback.Env where
  starts e := decide (e ∈ known) && m.up e && m.ps e
  listeners := m.listeners loc
  result k rep := (m.netkv k rep).map Measured.line

def Settings.config (cfg : Settings) : Loopback.Config where
  engines := cfg.engines.map Word.text
  conns := cfg.conns.map fun c => c.text
  repeats := cfg.repeats

/-! ### Columns -/

theorem Word.isBlank_of_mem (w : Word) {c : Char} (h : c ∈ w.text.toList) :
    Awk.isBlank c = false := by
  simpa using List.any_eq_false.mp w.no_blank c h

theorem Word.plain (w : Word) : '\t' ∉ w.text.toList ∧ '\n' ∉ w.text.toList :=
  ⟨fun h => absurd (w.isBlank_of_mem h) (by decide), fun h => absurd (w.isBlank_of_mem h) (by decide)⟩

def Word.column (w : Word) : Column := ⟨w.text.toList, w.plain.1, w.plain.2⟩

theorem plain_tenths (t : Tenths) : '\t' ∉ t.text ∧ '\n' ∉ t.text :=
  ⟨fun h => absurd (t.plain_text _ h).2 (by decide), fun h => absurd (t.plain_text _ h).2 (by decide)⟩

theorem tenths_ne_nil (t : Tenths) : t.text ≠ [] := by
  simp [Tenths.text]

/-- The three texts of a point are words. -/
def IsPoint (k : Key) : Prop :=
  ∀ s ∈ [k.1, k.2.1, k.2.2], s.toList ≠ [] ∧ '\t' ∉ s.toList ∧ '\n' ∉ s.toList

theorem isPoint_of_mem {cfg : Settings} {e : Word} {k : Key} (h : k ∈ points cfg e.text) :
    IsPoint k ∧ k.1 = e.text := by
  obtain ⟨wl, hwl, h⟩ := List.mem_flatMap.mp h
  obtain ⟨c, -, rfl⟩ := List.mem_map.mp h
  have hwl' : wl.toList ≠ [] ∧ '\t' ∉ wl.toList ∧ '\n' ∉ wl.toList := by
    rcases List.mem_pair.mp hwl with rfl | rfl
    · decide
    · decide
  refine ⟨?_, rfl⟩
  intro s hs
  simp only [List.mem_cons, List.not_mem_nil, or_false] at hs
  rcases hs with rfl | rfl | rfl
  · exact ⟨e.ne_nil, e.plain⟩
  · exact hwl'
  · exact ⟨c.ne_nil, c.plain⟩

/-- The row of a result. -/
def Measured.row (r : Measured) {k : Key} (hk : IsPoint k) (rep : ℕ) : PlainRow where
  key := k
  rep := rep
  line := r.line
  plain := by
    intro s hs
    simp only [List.mem_cons, List.not_mem_nil, or_false] at hs
    rcases hs with rfl | rfl | rfl | rfl | rfl | rfl
    · exact (hk _ (by simp)).2
    · exact (hk _ (by simp)).2
    · exact (hk _ (by simp)).2
    · simpa [Measured.line] using plain_tenths r.stats.p50
    · simpa [Measured.line] using plain_tenths r.stats.p99
    · simpa [Measured.line] using plain_tenths r.stats.p999

variable {cfg : Settings} {m : Machine} {k : Key} {rep : ℕ}

/-- What `awk` makes of a result line. -/
theorem awk_output (p : Point) (r : Measured) :
    awk p (output (some r)) = some (row p (natText r.stats.throughput) (natText r.stats.ops)
      (natText r.stats.errs) r.stats.p50.text r.stats.p99.text r.stats.p999.text) := by
  have hrecords : Awk.records (output (some r)) =
      [] ++ [print r.eng r.setup r.conns (label r.readPct r.zipf) r.stats] ++ [] := by
    have hline : ∀ l ∈ [print r.eng r.setup r.conns (label r.readPct r.zipf) r.stats], '\n' ∉ l := by
      intro l hl
      rw [List.mem_singleton.mp hl]
      exact newline_not_mem_print r.eng r.setup r.conns r.readPct r.zipf r.stats
    simpa [output] using Awk.records_flatMap hline
  have hlast := getLast?_filter_opsPerSec
    (opsPerSec_infix_print r.eng r.setup r.conns (label r.readPct r.zipf) r.stats)
    (List.forall_mem_nil _) (List.forall_mem_nil _)
  have hfinds := finds_print r.eng r.setup r.conns r.readPct r.zipf r.stats
  unfold awk
  rw [hrecords, hlast]
  dsimp only
  rw [hfinds.opsPerSec, hfinds.ops, hfinds.errs, hfinds.p50, hfinds.p99, hfinds.p999]

/-! ### A repetition -/

/-- No column of the row is empty. -/
theorem columns_written_ne_nil (r : Measured) (hk : IsPoint k) (gens : Word) :
    ∀ c ∈ ((r.row hk rep).written gens.column).columns, c ≠ [] := by
  have htenths (t : Tenths) : (String.ofList t.text).toList ≠ [] := by
    rw [String.toList_ofList]
    exact tenths_ne_nil t
  simp only [Summary.Row.columns, List.forall_mem_cons]
  exact ⟨by decide, by decide, (hk k.1 (by simp)).1, (hk k.2.1 (by simp)).1, (hk k.2.2 (by simp)).1,
    gens.ne_nil, natText_ne_nil _, natText_ne_nil _, natText_ne_nil _, natText_ne_nil _,
    htenths _, htenths _, htenths _, by simp⟩

theorem newline_not_mem_line (r : Summary.Row) : '\n' ∉ r.line :=
  Summary.not_mem_intercalate (by decide) fun c hc => (r.columns_plain c hc).2

/-- The row that is written to the TSV. -/
theorem rowOf_output (r : Measured) (hk : IsPoint k) :
    rowOf cfg k rep (output (some r)) = ((r.row hk rep).written cfg.gens.column).line := by
  have htext : awk (awkPoint cfg k rep) (output (some r)) =
      some (((r.row hk rep).written cfg.gens.column).line ++ ['\n']) := by
    rw [awk_output]
    simp [awkPoint, row, Summary.Row.line, Summary.Row.columns, PlainRow.written, PlainRow.column,
      Loopback.natColumn, Measured.row, Measured.line, Word.column]
  rw [rowOf, htext, Option.getD_some, substitute_append_newline]
  apply substitute_of_getLast?
  intro hlast
  exact newline_not_mem_line _ (List.mem_of_getLast? hlast)

theorem line_ne_nil (r : Summary.Row) : r.line ≠ [] := by
  simp [Summary.Row.line, Summary.Row.columns]

/-- `read` finds the error count. -/
theorem errsOf_line (r : Measured) (hk : IsPoint k) (gens : Word) :
    errsOf ((r.row hk rep).written gens.column).line = natText r.stats.errs := by
  have hword : word '\t' ((r.row hk rep).written gens.column).line 9 = natText r.stats.errs :=
    word_intercalate (List.cons_ne_nil _ _)
      (fun c hc => ⟨(Summary.Row.columns_plain _ c hc).1, (Summary.Row.columns_plain _ c hc).2,
        columns_written_ne_nil r hk gens c hc⟩) (newline_not_mem_line _) 9
  rw [errsOf, hword, if_neg (natText_ne_nil _)]

/-- The variables of the script and those of `Loopback`. -/
def Sim (cfg : Settings) (st : Loopback.Sweep) (v : Vars) : Prop :=
  v.failures = st.failures ∧ ∃ rows : List PlainRow, st.tsv = rows.map PlainRow.toRow ∧
    v.tsv = Summary.tsv (rows.map (PlainRow.written cfg.gens.column))

theorem Sim.fail {st : Loopback.Sweep} {v : Vars} (h : Sim cfg st v) :
    Sim cfg { st with failures := st.failures + 1 } v.fail :=
  ⟨congrArg (· + 1) h.1, h.2⟩

theorem Sim.row {st : Loopback.Sweep} {v : Vars} (h : Sim cfg st v) (row : PlainRow) :
    Sim cfg { st with tsv := st.tsv ++ [row.toRow] }
      { v with tsv := v.tsv ++ (row.written cfg.gens.column).line ++ ['\n'] } := by
  obtain ⟨hfailures, rows, hrows, htsv⟩ := h
  refine ⟨hfailures, rows ++ [row], ?_, ?_⟩
  · simp [hrows]
  · simp [htsv, Summary.tsv, Summary.Row.text, Summary.Row.line, Summary.Row.columns,
      ResultLine.row]

/-- A repetition of a point. -/
theorem Sim.record {st : Loopback.Sweep} {v : Vars} (h : Sim cfg st v) (hk : IsPoint k) (rep : ℕ) :
    Sim cfg (Loopback.runRep (m.env cfg.locale) k st rep)
      (v.record cfg k rep (output (m.netkv k rep))) := by
  have hresult : (m.env cfg.locale).result k rep = (m.netkv k rep).map Measured.line := rfl
  rw [Loopback.runRep, hresult, Vars.record]
  cases m.netkv k rep with
  | none => exact h.fail
  | some r =>
      have herrs : gtZero (natText r.stats.errs) = Loopback.errsGt0 r.line.errs :=
        gtZero_toDigits r.stats.errs
      simp only [rowOf_output r hk, if_neg (line_ne_nil _), errsOf_line r hk cfg.gens.toWord, herrs,
        Option.map_some]
      by_cases hgt : Loopback.errsGt0 r.line.errs = true
      · rw [if_pos hgt, if_pos hgt]
        exact (h.row (r.row hk rep)).fail
      · rw [if_neg hgt, if_neg hgt]
        exact h.row (r.row hk rep)

/-! ### The rounds -/

variable {α β : Type} {out : List Char}

theorem run_andThen {c : Cmd} {f : c.Reply → Part β} :
    ((run c).andThen f).run m.act () = (f (m.reply c)).run m.act () :=
  Prog.run_andThen_ok rfl

theorem run_startEngine (cfg : Settings) (e : String) :
    (startEngine e).run m.act () = ((), .ok ((m.env cfg.locale).starts e)) := by
  change _ = ((), Except.ok (decide (e ∈ known) && m.up e && m.ps e))
  rw [startEngine, run_andThen]
  by_cases hknown : e ∈ known
  · rw [if_pos hknown, run_andThen, run_andThen]
    cases hup : m.up e with
    | true =>
        have hreply : m.reply (.waitUp e) = true := hup
        rw [hreply]
        simp [hknown, run, Prog.run, Machine.act, Machine.reply]
    | false =>
        have hreply : m.reply (.waitUp e) = false := hup
        rw [hreply]
        simp [done, Prog.run]
  · rw [if_neg hknown]
    simp [hknown, done, Prog.run]

theorem run_assertNoNewPublic (hbase : publicListeners cfg.locale (m.ss .baseline) = some out)
    {c : Check} (hc : c ≠ .baseline) :
    (assertNoNewPublic cfg.locale (substitute out) c).run m.act () =
      ((), Loopback.assertNoNewPublic (m.env cfg.locale) c) := by
  have hlisteners : (m.env cfg.locale).listeners c = check cfg.locale (substitute out) (m.ss c) := by
    change m.listeners cfg.locale c = _
    rw [Machine.listeners, hbase]
    exact if_neg hc
  rw [assertNoNewPublic, run_andThen, Loopback.assertNoNewPublic, hlisteners]
  dsimp only [Machine.reply]
  cases check cfg.locale (substitute out) (m.ss c) with
  | quiet => rfl
  | ssFailed => rfl
  | exposed => rfl

theorem run_point {st : Loopback.Sweep} {v : Vars} (h : Sim cfg st v) (hk : IsPoint k) :
    ∃ v', (point cfg v k).run m.act () = ((), .ok v') ∧
      Sim cfg (Loopback.point (m.env cfg.locale) cfg.config st k) v' := by
  apply Prog.run_forEach_ok _ h
  intro rep _ st v h
  refine ⟨v.record cfg k rep (output (m.netkv k rep)), ?_, h.record hk rep⟩
  rw [run_andThen]
  rfl

theorem run_engine (hbase : publicListeners cfg.locale (m.ss .baseline) = some out) (e : Word)
    {st : Loopback.Sweep} {v : Vars} (h : Sim cfg st v) :
    (∃ st' v', Loopback.sweepEngine (m.env cfg.locale) cfg.config st e.text = .ok st' ∧
      (engine cfg (substitute out) v e.text).run m.act () = ((), .ok v') ∧ Sim cfg st' v') ∨
    ∃ status, Loopback.sweepEngine (m.env cfg.locale) cfg.config st e.text = .error status ∧
      (engine cfg (substitute out) v e.text).run m.act () = ((), .error status) := by
  rw [engine, Prog.run_andThen_ok (run_startEngine cfg e.text), Loopback.sweepEngine]
  cases (m.env cfg.locale).starts e.text with
  | false => exact Or.inl ⟨_, v.fail, rfl, rfl, h.fail⟩
  | true =>
      have hrun := run_assertNoNewPublic hbase (c := .started e.text) (by simp)
      simp only [if_true]
      cases hassert : Loopback.assertNoNewPublic (m.env cfg.locale) (.started e.text) with
      | error status =>
          rw [hassert] at hrun
          exact Or.inr ⟨status, rfl, Prog.run_andThen_error hrun⟩
      | ok u =>
          rw [hassert] at hrun
          have hpoints : ∀ k ∈ points cfg e.text, ∀ st v, Sim cfg st v →
              ∃ v', (point cfg v k).run m.act () = ((), .ok v') ∧
                Sim cfg (Loopback.point (m.env cfg.locale) cfg.config st k) v' :=
            fun k hk st v h => run_point h (isPoint_of_mem hk).1
          obtain ⟨v', hrun', hsim⟩ := Prog.run_forEach_ok hpoints h
          have hconfig : cfg.config.points e.text = points cfg e.text := by
            simp [Loopback.Config.points, Settings.config, points, Function.comp_def]
          refine Or.inl ⟨_, v', rfl, ?_, hconfig ▸ hsim⟩
          rw [Prog.run_andThen_ok hrun, Prog.run_andThen_ok hrun', run_andThen]
          rfl

theorem run_sweep (cfg : Settings) (m : Machine) :
    (∃ st v, Loopback.sweep (m.env cfg.locale) cfg.config = .ok st ∧
      (sweep cfg).run m.act () = ((), .ok v) ∧ Sim cfg st v) ∨
    ∃ status, Loopback.sweep (m.env cfg.locale) cfg.config = .error status ∧
      (sweep cfg).run m.act () = ((), .error status) := by
  have hlisteners : (m.env cfg.locale).listeners .baseline =
      if (publicListeners cfg.locale (m.ss .baseline)).isSome then .quiet else .ssFailed := by
    change m.listeners cfg.locale .baseline = _
    rw [Machine.listeners]
    cases publicListeners cfg.locale (m.ss .baseline) <;> rfl
  rw [sweep, run_andThen, Loopback.sweep, hlisteners]
  dsimp only [Machine.reply]
  cases hbase : publicListeners cfg.locale (m.ss .baseline) with
  | none => exact Or.inr ⟨5, rfl, rfl⟩
  | some out =>
      have hstart : Sim cfg { failures := 0, tsv := [] }
          { failures := 0, tsv := Summary.header ++ ['\n'] } :=
        ⟨rfl, [], rfl, by simp [Summary.tsv]⟩
      have hengines : ∀ e ∈ cfg.engines.map Word.text, ∀ st v, Sim cfg st v →
          (∃ st' v', Loopback.sweepEngine (m.env cfg.locale) cfg.config st e = .ok st' ∧
            (engine cfg (substitute out) v e).run m.act () = ((), .ok v') ∧ Sim cfg st' v') ∨
          ∃ status, Loopback.sweepEngine (m.env cfg.locale) cfg.config st e = .error status ∧
            (engine cfg (substitute out) v e).run m.act () = ((), .error status) := by
        intro e he st v h
        obtain ⟨e, -, rfl⟩ := List.mem_map.mp he
        exact run_engine hbase e h
      have hrun := run_assertNoNewPublic hbase (c := .sweepEnd) (by simp)
      simp only [Option.isSome_some, if_true, reduceCtorEq, if_false]
      rcases Prog.run_forEach hengines hstart with ⟨st, v, hfold, hloop, hsim⟩ | ⟨status, hfold, hloop⟩
      · rw [Prog.run_andThen_ok hloop]
        change List.foldlM _ _ cfg.config.engines = _ at hfold
        rw [hfold]
        cases hassert : Loopback.assertNoNewPublic (m.env cfg.locale) .sweepEnd with
        | ok u =>
            rw [hassert] at hrun
            refine Or.inl ⟨st, v, rfl, ?_, hsim⟩
            rw [Prog.run_andThen_ok hrun, run_andThen]
            rfl
        | error status =>
            rw [hassert] at hrun
            exact Or.inr ⟨status, rfl, Prog.run_andThen_error hrun⟩
      · change List.foldlM _ _ cfg.config.engines = _ at hfold
        rw [hfold]
        exact Or.inr ⟨status, rfl, Prog.run_andThen_error hloop⟩

theorem run_main (hconf : ∀ line ∈ rewrite m.conf, binds line = false) :
    (main cfg).run m.act () = (sweep cfg).run m.act () := by
  have hany : ¬ (rewrite m.conf).any binds = true := by
    intro h
    obtain ⟨line, hline, hbinds⟩ := List.any_eq_true.mp h
    rw [hconf line hline] at hbinds
    cases hbinds
  rw [main, run_andThen]
  exact congrArg (fun p => Prog.run m.act p ()) (if_neg hany)

/-- The run of the script and the sweep over values end alike. -/
theorem run_script (cfg : Settings) (hconf : ∀ line ∈ rewrite m.conf, binds line = false) :
    (∃ st v, Loopback.sweep (m.env cfg.locale) cfg.config = .ok st ∧
      (script cfg).run m.act () = ((), outcome (.ok v)) ∧ Sim cfg st v) ∨
    ∃ status, Loopback.sweep (m.env cfg.locale) cfg.config = .error status ∧
      (script cfg).run m.act () = ((), outcome (.error status)) := by
  rw [script, Prog.run_bind, run_main hconf]
  rcases run_sweep cfg m with ⟨st, v, hsweep, hrun, hsim⟩ | ⟨status, hsweep, hrun⟩
  · rw [hrun]
    exact Or.inl ⟨st, v, hsweep, rfl, hsim⟩
  · rw [hrun]
    exact Or.inr ⟨status, hsweep, rfl⟩

/-- When no signal comes in and the configuration is right, the script over texts ends with
the status of the sweep over values, and gets to a summary when that does. What the summary
prints then are the medians of the sweep, whatever order it takes the cells in. -/
theorem script_refines_loopback (cfg : Settings) (m : Machine)
    (hconf : ∀ line ∈ rewrite m.conf, binds line = false) :
    ((script cfg).run m.act ()).2.exit =
      (Loopback.script (m.env cfg.locale) cfg.config).exit ∧
    (((script cfg).run m.act ()).2.summarised = none ↔
      ∃ status, Loopback.sweep (m.env cfg.locale) cfg.config = .error status) ∧
    ∀ tsv ∈ ((script cfg).run m.act ()).2.summarised, ∀ order,
      order.Perm (Summary.scan tsv).keys →
        (Summary.report order tsv).lines.Perm
            ((Loopback.script (m.env cfg.locale) cfg.config).summary.map Loopback.Cell.line) ∧
          (Summary.report order tsv).skipped =
            (Loopback.script (m.env cfg.locale) cfg.config).skipped := by
  rw [Loopback.script]
  rcases run_script cfg hconf with ⟨st, v, hsweep, hrun, hfailures, rows, hrows, htsv⟩ |
    ⟨status, hsweep, hrun⟩
  · rw [hrun, hsweep]
    simp only [outcome]
    refine ⟨by rw [hfailures], by simp, ?_⟩
    intro tsv htsv' order horder
    obtain rfl : v.tsv = tsv := by simpa using htsv'
    rw [htsv] at horder ⊢
    rw [hrows]
    exact ⟨Loopback.lines_perm horder, Loopback.skipped_eq cfg.gens.column rows⟩
  · rw [hrun, hsweep]
    simp [outcome]

/-! ### A sweep -/

/-- Two engines at one number of connections. -/
def sample : Settings where
  engines := [⟨"redis", by decide, by decide⟩, ⟨"aerospike", by decide, by decide⟩]
  conns := [⟨⟨"8", by decide, by decide⟩, by decide⟩]
  repeats := 2
  gens := ⟨⟨"6", by decide, by decide⟩, by decide⟩
  locale := codePoints

/-- A machine with one public listener, where every engine starts and every run of `netkv`
has the same result. -/
def steady : Machine where
  conf := "service\n\taddress any\nfabric\n\taddress local\n".toList
  up _ := true
  ps _ := true
  ss _ := { tcp := some "LISTEN 0 128 0.0.0.0:22 0.0.0.0:*\n".toList, udp := some [], piped := true }
  netkv _ _ := some
    { eng := .redis
      setup := { servers := 1, sync := false, perNode := 1, window := 1 }
      conns := 8
      readPct := 100
      zipf := false
      stats :=
        { throughput := 90000, ops := 900000, errs := 0, p50 := ⟨81, 0⟩, p99 := ⟨140, 2⟩
          p999 := ⟨305, 5⟩ }
      errs_lt := by decide }

theorem steady_conf : ∀ line ∈ rewrite steady.conf, binds line = false := by
  decide +kernel

/-- The listener is there from the start. -/
theorem steady_listeners (c : Check) : (steady.env sample.locale).listeners c = .quiet := by
  change steady.listeners codePoints c = .quiet
  rw [Machine.listeners]
  rcases publicListeners_spec codePoints (steady.ss .baseline) with ⟨-, hnot⟩ | ⟨-, lines, hbase, -, -⟩
  · exact absurd (⟨rfl, rfl, rfl⟩ : (steady.ss .baseline).Complete) hnot
  · rw [hbase]
    obtain ⟨hfailed, hexposed⟩ := check_spec hbase (steady.ss c)
    dsimp only
    split
    · rfl
    · cases hcheck : check codePoints _ (steady.ss c) with
      | quiet => rfl
      | ssFailed => exact absurd (⟨rfl, rfl, rfl⟩ : (steady.ss c).Complete) (hfailed.mp hcheck)
      | exposed =>
          obtain ⟨-, addr, hnow, hbefore⟩ := hexposed.mp hcheck
          exact absurd hnow hbefore

theorem steady_clean : Loopback.Clean (steady.env sample.locale) sample.config := by
  intro e he
  refine ⟨?_, fun k _ rep _ => ⟨_, rfl, rfl⟩⟩
  rcases List.mem_pair.mp he with rfl | rfl
  · rfl
  · rfl

theorem script_refines_loopback_steady :
    ((script sample).run steady.act ()).2.exit = 0 ∧
      ((script sample).run steady.act ()).2.summarised ≠ none := by
  obtain ⟨hexit, hnone, -⟩ := script_refines_loopback sample steady steady_conf
  have hfailures := Loopback.failures_eq_zero.mpr steady_clean
  rw [hexit, Loopback.script_eq steady_listeners, hfailures]
  refine ⟨rfl, ?_⟩
  rw [Ne, hnone, Loopback.sweep_eq steady_listeners]
  simp

end RostamBench.Netkv.LoopbackRun
