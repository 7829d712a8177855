import RostamBench.Lib.Shell
import RostamBench.Lib.SortedLines
import RostamBench.Netkv.Loopback
import Mathlib.Data.Char
import Mathlib.Data.List.Lex

/-!
The safety net of `netkv/kv_loopback.sh`: no listener may be added that is not on the
loopback interface.

`public_listeners` is a pipeline over what the two `ss` queries print, and
`assert_no_new_public` compares two of its outputs with `comm`. The outputs pass
through `$(...)` and `printf` on the way, so a snapshot without a public listener is
compared as one empty line. `check_eq_exposed_iff` says what the comparison finds in
terms of the two snapshots.
-/

namespace RostamBench.Netkv.Listeners

open Awk Shell SortedLines

/-- The collating order of the locale. The empty line is its first one. -/
structure LineOrder extends Collation (List Char) where
  nil_le : ∀ s, le [] s = true

/-- The locale `C`. -/
def codePoints : LineOrder where
  le a b := decide (a ≤ b)
  trans a b c hab hbc := by
    simp only [decide_eq_true_eq] at hab hbc ⊢
    exact le_trans hab hbc
  total a b := by
    simp only [Bool.or_eq_true, decide_eq_true_eq]
    exact le_total a b
  antisymm a b hab hba := by
    simp only [decide_eq_true_eq] at hab hba
    exact le_antisymm hab hba
  nil_le s := by
    simp only [decide_eq_true_eq]
    exact not_lt.mp (List.not_lt_nil s)

/-- What a call of `public_listeners` gets from its commands: the outputs of the two
queries, if they succeed, and whether `awk` and `sort` do. -/
structure Snapshot where
  tcp : Option (List Char)
  udp : Option (List Char)
  piped : Bool

/-- `$4 ~ /^127\.|^\[::1\]|^\[::ffff:127\./`. -/
def loopback (addr : List Char) : Bool :=
  "127.".toList.isPrefixOf addr || "[::1]".toList.isPrefixOf addr ||
    "[::ffff:127.".toList.isPrefixOf addr

/-- `$4`. -/
def local4 (line : List Char) : List Char := (fields line).getD 3 []

/-- `NF && $4 !~ ...`. -/
def kept (line : List Char) : Bool := decide (fields line ≠ []) && !loopback (local4 line)

/-- What `awk` prints. -/
def awkLines (text : List Char) : List (List Char) := ((records text).filter kept).map local4

/-- `public_listeners`; `none` is the status 2. -/
def publicListeners (loc : LineOrder) (snap : Snapshot) : Option (List Char) := do
  let tcp ← snap.tcp.map substitute
  let udp ← snap.udp.map substitute
  if snap.piped then
    some (unlines (sortU loc.toCollation (awkLines (tcp ++ '\n' :: (udp ++ ['\n'])))))
  else none

/-- `new`. -/
def newPublic (loc : LineOrder) (baseline now : List Char) : List Char :=
  substitute (unlines
    (comm13 loc.toCollation (records (baseline ++ ['\n'])) (records (now ++ ['\n']))))

/-- `assert_no_new_public`. -/
def check (loc : LineOrder) (baseline : List Char) (snap : Snapshot) : Loopback.Listeners :=
  match publicListeners loc snap with
  | none => .ssFailed
  | some now => if newPublic loc baseline (substitute now) = [] then .quiet else .exposed

/-! ### What a snapshot shows -/

/-- All four commands have succeeded. -/
def Snapshot.Complete (snap : Snapshot) : Prop :=
  snap.tcp.isSome = true ∧ snap.udp.isSome = true ∧ snap.piped = true

instance (snap : Snapshot) : Decidable snap.Complete :=
  inferInstanceAs (Decidable (_ ∧ _ ∧ _))

/-- A line of one of the two outputs. -/
def Snapshot.Lists (snap : Snapshot) (line : List Char) : Prop :=
  (∃ tcp ∈ snap.tcp, line ∈ tcp.splitOn '\n') ∨ ∃ udp ∈ snap.udp, line ∈ udp.splitOn '\n'

/-- Some socket listens on the address, which is not a loopback one. -/
def Snapshot.Public (snap : Snapshot) (addr : List Char) : Prop :=
  addr ≠ [] ∧ loopback addr = false ∧ ∃ line, snap.Lists line ∧ local4 line = addr

variable {loc : LineOrder} {snap base : Snapshot} {addr text tcp udp : List Char}

theorem kept_of_local4 {line : List Char} (hne : local4 line ≠ []) (h : loopback (local4 line) = false) :
    kept line = true := by
  have hfields : fields line ≠ [] := by
    intro hnil
    rw [local4, hnil] at hne
    exact hne rfl
  simp [kept, hfields, h]

theorem newline_not_mem_local4 (line : List Char) : '\n' ∉ local4 line := by
  intro hmem
  rw [local4, List.getD_eq_getElem?_getD] at hmem
  cases htok : (fields line)[3]? with
  | none => simp [htok] at hmem
  | some tok =>
      rw [htok, Option.getD_some] at hmem
      exact absurd (isBlank_of_mem_fields (List.mem_of_getElem? htok) hmem) (by decide)

theorem newline_not_mem_awkLines {line : List Char} (h : line ∈ awkLines text) : '\n' ∉ line := by
  obtain ⟨line, -, rfl⟩ := List.mem_map.mp h
  exact newline_not_mem_local4 line

/-- An address `awk` prints, other than an empty one. -/
theorem mem_awkLines (hne : addr ≠ []) : addr ∈ awkLines text ↔
    loopback addr = false ∧ ∃ line ∈ text.splitOn '\n', local4 line = addr := by
  rw [awkLines, List.mem_map]
  constructor
  · rintro ⟨line, hline, rfl⟩
    obtain ⟨hline, hkept⟩ := List.mem_filter.mp hline
    obtain ⟨hfields, hloop⟩ : fields line ≠ [] ∧ loopback (local4 line) = false := by
      simpa [kept] using hkept
    have hnil : line ≠ [] := by
      rintro rfl
      exact hfields rfl
    exact ⟨hloop, line, (mem_records hnil).mp hline, rfl⟩
  · rintro ⟨hloop, line, hline, rfl⟩
    have hnil : line ≠ [] := by
      rintro rfl
      exact hne rfl
    exact ⟨line, List.mem_filter.mpr ⟨(mem_records hnil).mpr hline, kept_of_local4 hne hloop⟩, rfl⟩

/-- The text the two outputs make. -/
def joined (tcp udp : List Char) : List Char :=
  substitute tcp ++ '\n' :: (substitute udp ++ ['\n'])

theorem mem_splitOn_joined {line : List Char} (hne : line ≠ []) :
    line ∈ (joined tcp udp).splitOn '\n' ↔
      line ∈ tcp.splitOn '\n' ∨ line ∈ udp.splitOn '\n' := by
  have hend : ((substitute udp ++ ['\n']).splitOn '\n') = (substitute udp).splitOn '\n' ++ [[]] :=
    List.splitOn_append_cons_self _ _
  rw [joined, List.splitOn_append_cons_self, hend, List.mem_append, List.mem_append,
    mem_splitOn_substitute hne, mem_splitOn_substitute hne]
  simp [hne]

/-- What `public_listeners` prints: the public addresses, and perhaps an empty line. -/
theorem publicListeners_spec (loc : LineOrder) (snap : Snapshot) :
    (publicListeners loc snap = none ∧ ¬ snap.Complete) ∨
    (snap.Complete ∧ ∃ lines, publicListeners loc snap = some (unlines (sortU loc.toCollation lines)) ∧
      (∀ line ∈ lines, '\n' ∉ line) ∧ ∀ addr, addr ≠ [] → (addr ∈ lines ↔ snap.Public addr)) := by
  obtain ⟨tcp, udp, piped⟩ := snap
  cases tcp with
  | none => exact Or.inl ⟨rfl, by simp [Snapshot.Complete]⟩
  | some tcp =>
      cases udp with
      | none => exact Or.inl ⟨rfl, by simp [Snapshot.Complete]⟩
      | some udp =>
          cases piped with
          | false => exact Or.inl ⟨rfl, by simp [Snapshot.Complete]⟩
          | true =>
              refine Or.inr ⟨⟨rfl, rfl, rfl⟩, awkLines (joined tcp udp), rfl,
                fun line hline => newline_not_mem_awkLines hline, ?_⟩
              intro addr hne
              have hlines : (∃ line ∈ (joined tcp udp).splitOn '\n', local4 line = addr) ↔
                  ∃ line, (line ∈ tcp.splitOn '\n' ∨ line ∈ udp.splitOn '\n') ∧
                    local4 line = addr := by
                refine exists_congr fun line => and_congr_left fun hline => ?_
                apply mem_splitOn_joined
                rintro rfl
                exact hne hline.symm
              rw [mem_awkLines hne, hlines]
              simp [Snapshot.Public, Snapshot.Lists, hne]

/-! ### The comparison -/

/-- In a sorted file an empty line is the first one. -/
theorem eq_singleton_of_getLast? {lines : List (List Char)} (h : loc.Sorted lines)
    (hlast : lines.getLast? = some []) : lines = [[]] := by
  obtain ⟨ls, rfl⟩ := List.getLast?_eq_some_iff.mp hlast
  have hbefore := (List.pairwise_append.mp h).2.2
  cases ls with
  | nil => rfl
  | cons l ls =>
      obtain ⟨hle, hne⟩ := hbefore l List.mem_cons_self [] List.mem_cons_self
      exact absurd (loc.antisymm _ _ hle (loc.nil_le l)) hne

/-- The file `comm` reads is sorted and has the addresses of the snapshot. -/
theorem records_sortU (loc : LineOrder) {lines : List (List Char)} (hlines : ∀ line ∈ lines, '\n' ∉ line) :
    let file := records (substitute (unlines (sortU loc.toCollation lines)) ++ ['\n'])
    loc.Sorted file ∧ (∀ line ∈ file, '\n' ∉ line) ∧
      ∀ addr, addr ≠ [] → (addr ∈ file ↔ addr ∈ lines) := by
  intro file
  have hsorted : loc.Sorted (sortU loc.toCollation lines) := sorted_sortU loc.toCollation lines
  have hnewline : ∀ line ∈ sortU loc.toCollation lines, '\n' ∉ line :=
    fun line hline => hlines line ((mem_sortU _).mp hline)
  by_cases hlast : (sortU loc.toCollation lines).getLast? = some []
  · have hone := eq_singleton_of_getLast? hsorted hlast
    have hfile : file = [[]] := by
      change records (substitute (unlines (sortU loc.toCollation lines)) ++ ['\n']) = _
      rw [hone]
      rfl
    rw [hfile, ← hone]
    exact ⟨hsorted, hnewline, fun addr _ => mem_sortU _⟩
  · have hfile : file = if sortU loc.toCollation lines = [] then [[]] else sortU loc.toCollation lines :=
      records_substitute_unlines hnewline hlast
    by_cases hnil : sortU loc.toCollation lines = []
    · rw [if_pos hnil] at hfile
      rw [hfile]
      refine ⟨List.pairwise_singleton _ _, by simp, ?_⟩
      intro addr hne
      have hmem : addr ∈ lines ↔ addr ∈ sortU loc.toCollation lines := (mem_sortU _).symm
      rw [hmem, hnil]
      simp [hne]
    · rw [if_neg hnil] at hfile
      rw [hfile]
      exact ⟨hsorted, hnewline, fun addr _ => mem_sortU _⟩

/-- The check stops the script when a query fails, and when a public address is listened
on that the baseline does not have. -/
theorem check_spec {baseline : List Char} (hbase : publicListeners loc base = some baseline)
    (snap : Snapshot) :
    (check loc (substitute baseline) snap = .ssFailed ↔ ¬ snap.Complete) ∧
    (check loc (substitute baseline) snap = .exposed ↔
      snap.Complete ∧ ∃ addr, snap.Public addr ∧ ¬ base.Public addr) := by
  rcases publicListeners_spec loc base with ⟨hnone, -⟩ | ⟨-, before, hbefore, hbefore₁, hbefore₂⟩
  · rw [hnone] at hbase
    cases hbase
  rw [hbefore, Option.some.injEq] at hbase
  subst hbase
  rcases publicListeners_spec loc snap with ⟨hnone, hnot⟩ | ⟨hcomplete, now, hnow, hnow₁, hnow₂⟩
  · rw [check, hnone]
    simp [hnot]
  · obtain ⟨hsorted₀, -, hmem₀⟩ := records_sortU loc hbefore₁
    obtain ⟨hsorted₁, hnewline, hmem₁⟩ := records_sortU loc hnow₁
    have hnew : newPublic loc (substitute (unlines (sortU loc.toCollation before)))
        (substitute (unlines (sortU loc.toCollation now))) = [] ↔
          ∀ addr, snap.Public addr → base.Public addr := by
      rw [newPublic, substitute_unlines_eq_nil_iff fun l hl =>
        hnewline l ((mem_comm13 hsorted₀ hsorted₁).mp hl).1]
      constructor
      · intro h addr haddr
        by_contra hbase
        have hne : addr ≠ [] := haddr.1
        apply hne
        apply h addr
        rw [mem_comm13 hsorted₀ hsorted₁, hmem₁ addr hne, hmem₀ addr hne]
        exact ⟨(hnow₂ addr hne).mpr haddr, fun hmem => hbase ((hbefore₂ addr hne).mp hmem)⟩
      · intro h l hl
        by_contra hne
        rw [mem_comm13 hsorted₀ hsorted₁, hmem₁ l hne, hmem₀ l hne] at hl
        exact hl.2 ((hbefore₂ l hne).mpr (h l ((hnow₂ l hne).mp hl.1)))
    rw [check, hnow]
    dsimp only
    by_cases hquiet : ∀ addr, snap.Public addr → base.Public addr
    · rw [if_pos (hnew.mpr hquiet)]
      simpa [hcomplete] using hquiet
    · rw [if_neg fun h => hquiet (hnew.mp h)]
      simpa [hcomplete] using hquiet

end RostamBench.Netkv.Listeners
