import RostamBench.Lib.Transition
import RostamBench.Server.Handlers
import Mathlib.Data.List.Count
import Mathlib.Data.Set.Card

/-!
`rostamEngine.casIncr`: the optimistic increment of one key by many clients.

An invocation reads the counter with the builtin `get`, tries to write one more
than it read with `casw`, and reads again when the value had changed under it;
after a thousand lost races it gives up. The server executes `handleCASWrite` of
`Server.Handlers` on the stored value, atomically; between the two steps of an
attempt any number of other invocations may get through.

The label of a server step carries the answer, so the number of `casw` calls
that answered `1` is a count over the labels of a run. Three invariants relate
the run to its state: the stored counter is that count (`CounterInv`), the
invocations that returned nil are those whose `casw` won (`WinnersInv`), and an
invocation that has lost `n` races has seen `n` others win (`Raced`).
-/

namespace RostamBench.Netkv.CasIncr

open BigEndian Effects CellProg Transition Server

/-- `rostam: unsupported mode %q`. -/
inductive SetupErr
  | unsupportedMode (mode : String)
  deriving DecidableEq

/-- The value `setupOp` seeds every key with. -/
def seed : String → Except SetupErr Bytes
  | "atomic" => .ok (List.replicate 24 0)
  | "incr" | "cas" | "bitmask" => .ok (List.replicate 8 0)
  | "append" => .ok []
  | mode => .error (.unsupportedMode mode)

inductive IncrErr
  /-- The call failed on its way. -/
  | transport
  /-- The server answered with an error. -/
  | op (err : OpErr)
  | text (msg : String)
  deriving DecidableEq

def tooManyRetries : IncrErr := .text "cas: too many retries"

/-- Where an invocation is; `none` is a nil error. The number counts the attempts
made so far. -/
inductive IncrPc
  | idle
  | reading (tries : ℕ)
  | trying (tries : ℕ) (cur : Int64)
  | returned (err : Option IncrErr)
  deriving DecidableEq

structure State (ι : Type*) where
  cells : Bytes → Option Bytes
  incr : ι → IncrPc

inductive Action (ι : Type*)
  | call (i : ι)
  | get (i : ι) (resp : Response)
  | casw (i : ι) (resp : Response)
  /-- The read fails on the client's side. -/
  | getFail (i : ι)
  /-- The conditional write fails on the client's side; if it was executed its
  answer is lost. -/
  | caswFail (i : ι) (resp : Option Response)

variable {ι : Type*}

def Action.invocation : Action ι → ι
  | .call i | .get i _ | .casw i _ | .getFail i | .caswFail i _ => i

/-- `getI64` of the response. -/
def getI64 (res : Bytes) : Int64 := if res.length < 8 then 0 else getInt64 res

/-- `len(res) >= 1 && res[0] == 1`. -/
def answersOne : Response → Bool
  | .ok res => res.head? == some 1
  | .error _ => false

/-- The server's `casw` answered `1`. -/
def Action.won : Action ι → Bool
  | .casw _ resp | .caswFail _ (some resp) => answersOne resp
  | .call _ | .get _ _ | .getFail _ | .caswFail _ none => false

/-- A transport error. -/
def Action.failed : Action ι → Bool
  | .getFail _ | .caswFail _ _ => true
  | .call _ | .get _ _ | .casw _ _ => false

/-- What follows a read: the next attempt, if there is one left. -/
def afterGet (tries : ℕ) : Response → IncrPc
  | .error err => .returned (some (.op err))
  | .ok res => if tries < 1000 then .trying tries (getI64 res) else .returned (some tooManyRetries)

def afterCasw (tries : ℕ) : Response → IncrPc
  | .error err => .returned (some (.op err))
  | .ok res => if answersOne (.ok res) then .returned none else .reading (tries + 1)

/-- The clients and the server, with `wire.EncodeKeyArgs` and the contended
key. -/
structure Config where
  encodeKeyArgs : Bytes → Bytes
  key : Bytes

/-- The argument bytes of an attempt. -/
def Config.caswArgs (cfg : Config) (cur : Int64) : Bytes :=
  cfg.encodeKeyArgs cfg.key ++ (putInt64 cur ++ putInt64 (cur + 1))

/-- The server executes the `get` builtin. -/
def Config.execGet (cfg : Config) (cells : Bytes → Option Bytes) : Response :=
  match cells cfg.key with
  | some v => .ok v
  | none => .error (.tx .notFound)

/-- The server executes `casw`. -/
def Config.execCasw (cfg : Config) (cur : Int64) (cells : Bytes → Option Bytes) :
    (Bytes → Option Bytes) × Response :=
  TxContext.reliable.ops.run (handleCASWrite (cfg.caswArgs cur)) cells

def Config.Enabled (cfg : Config) (s : State ι) : Action ι → Prop
  | .call i => s.incr i = .idle
  | .get i resp => (∃ n, s.incr i = .reading n) ∧ resp = cfg.execGet s.cells
  | .getFail i => ∃ n, s.incr i = .reading n
  | .casw i resp => ∃ n cur, s.incr i = .trying n cur ∧ resp = (cfg.execCasw cur s.cells).2
  | .caswFail i resp => ∃ n cur, s.incr i = .trying n cur ∧
      (resp = none ∨ resp = some (cfg.execCasw cur s.cells).2)

instance (cfg : Config) (s : State ι) (a : Action ι) : Decidable (cfg.Enabled s a) :=
  match a with
  | .call i => inferInstanceAs (Decidable (s.incr i = .idle))
  | .get i resp =>
      match h : s.incr i with
      | .reading n =>
          decidable_of_iff (resp = cfg.execGet s.cells) (by simp [Config.Enabled, h])
      | .idle | .trying _ _ | .returned _ => isFalse (by simp [Config.Enabled, h])
  | .getFail i =>
      match h : s.incr i with
      | .reading n => isTrue ⟨n, h⟩
      | .idle | .trying _ _ | .returned _ => isFalse (by simp [Config.Enabled, h])
  | .casw i resp =>
      match h : s.incr i with
      | .trying n cur =>
          decidable_of_iff (resp = (cfg.execCasw cur s.cells).2) (by simp [Config.Enabled, h])
      | .idle | .reading _ | .returned _ => isFalse (by simp [Config.Enabled, h])
  | .caswFail i resp =>
      match h : s.incr i with
      | .trying n cur =>
          decidable_of_iff (resp = none ∨ resp = some (cfg.execCasw cur s.cells).2)
            (by simp [Config.Enabled, h])
      | .idle | .reading _ | .returned _ => isFalse (by simp [Config.Enabled, h])

variable [DecidableEq ι]

def State.goto (s : State ι) (i : ι) (pc : IncrPc) : State ι :=
  { s with incr := Function.update s.incr i pc }

def Config.effect (cfg : Config) (s : State ι) : Action ι → State ι
  | .call i => s.goto i (.reading 0)
  | .get i resp =>
      match s.incr i with
      | .reading n => s.goto i (afterGet n resp)
      | _ => s
  | .getFail i => s.goto i (.returned (some .transport))
  | .casw i resp =>
      match s.incr i with
      | .trying n cur =>
          { s.goto i (afterCasw n resp) with cells := (cfg.execCasw cur s.cells).1 }
      | _ => s
  | .caswFail i none => s.goto i (.returned (some .transport))
  | .caswFail i (some _) =>
      match s.incr i with
      | .trying _ cur =>
          { s.goto i (.returned (some .transport)) with cells := (cfg.execCasw cur s.cells).1 }
      | _ => s

/-- All invocations are still to come and the key is seeded for mode `cas`. -/
def Config.system (cfg : Config) : System (State ι) (Action ι) where
  init s := (∀ i, s.incr i = .idle) ∧ ∃ v, seed "cas" = .ok v ∧ s.cells cfg.key = some v
  enabled := cfg.Enabled
  effect := cfg.effect

instance (cfg : Config) (s : State ι) (a : Action ι) :
    Decidable ((cfg.system : System (State ι) (Action ι)).enabled s a) :=
  inferInstanceAs (Decidable (cfg.Enabled s a))

/-! ### What a step can do -/

/-- The key has a length a `u16` can hold, and `wire.EncodeKeyArgs` writes the
std prefix of it. -/
structure Config.WellFormed (cfg : Config) : Prop where
  encode : cfg.encodeKeyArgs cfg.key = bytesOf 2 cfg.key.length ++ cfg.key
  length : cfg.key.length < 2 ^ 16

variable {cfg : Config} {s s' : State ι} {i : ι} {v cur : Int64} {a : Action ι}
  {evs : List (Action ι)}

theorem getI64_putInt64 (v : Int64) : getI64 (putInt64 v) = v := by
  have hlen : ¬ (putInt64 v).length < 8 := by simp [length_putInt64]
  rw [getI64, if_neg hlen]
  simpa using getInt64_putInt64_append v []

theorem decodeCounter_putInt64 (v : Int64) : decodeCounter (some (putInt64 v)) = v := by
  have hlen : 8 ≤ (putInt64 v).length := by simp [length_putInt64]
  rw [decodeCounter, if_pos hlen]
  simpa using getInt64_putInt64_append v []

/-- `casw` on a stored counter. -/
theorem Config.WellFormed.execCasw (hcfg : cfg.WellFormed) {cells : Bytes → Option Bytes}
    (hv : cells cfg.key = some (putInt64 v)) (cur : Int64) :
    cfg.execCasw cur cells =
      if v = cur then (Function.update cells cfg.key (some (putInt64 (cur + 1))), .ok [1])
      else (cells, .ok [0]) := by
  have hargs : cfg.caswArgs cur = stdArgs cfg.key (putInt64 cur ++ putInt64 (cur + 1)) := by
    rw [caswArgs, hcfg.encode, stdArgs]
  have hneed : 16 ≤ (putInt64 cur ++ putInt64 (cur + 1)).length := by simp [length_putInt64]
  have hexpected : getInt64 (putInt64 cur ++ putInt64 (cur + 1)) = cur :=
    getInt64_putInt64_append cur _
  have hnew : getInt64 ((putInt64 cur ++ putInt64 (cur + 1)).drop 8) = cur + 1 := by
    rw [List.drop_left' (length_putInt64 cur)]
    simpa using getInt64_putInt64_append (cur + 1) []
  rw [Config.execCasw, hargs, handleCASWrite, run_updateArgs "casw" _ hcfg.length hneed, hv]
  simp only [decodeCounter_putInt64, hexpected, hnew]
  by_cases hcur : v = cur
  · simp [hcur, Update.apply]
  · simp [hcur, Update.apply]

/-- The steps on a key that holds the counter `v`, with their outcomes
resolved. -/
inductive Step (cfg : Config) (v : Int64) (s : State ι) : Action ι → State ι → Prop
  | call {i : ι} (hi : s.incr i = .idle) : Step cfg v s (.call i) (s.goto i (.reading 0))
  | get {i : ι} {n : ℕ} (hi : s.incr i = .reading n) :
      Step cfg v s (.get i (.ok (putInt64 v)))
        (s.goto i (if n < 1000 then .trying n v else .returned (some tooManyRetries)))
  | getFail {i : ι} {n : ℕ} (hi : s.incr i = .reading n) :
      Step cfg v s (.getFail i) (s.goto i (.returned (some .transport)))
  | won {i : ι} {n : ℕ} (hi : s.incr i = .trying n v) :
      Step cfg v s (.casw i (.ok [1]))
        { s.goto i (.returned none) with
          cells := Function.update s.cells cfg.key (some (putInt64 (v + 1))) }
  | lost {i : ι} {n : ℕ} {cur : Int64} (hi : s.incr i = .trying n cur) (hne : v ≠ cur) :
      Step cfg v s (.casw i (.ok [0])) (s.goto i (.reading (n + 1)))
  | wonUnseen {i : ι} {n : ℕ} (hi : s.incr i = .trying n v) :
      Step cfg v s (.caswFail i (some (.ok [1])))
        { s.goto i (.returned (some .transport)) with
          cells := Function.update s.cells cfg.key (some (putInt64 (v + 1))) }
  | lostUnseen {i : ι} {n : ℕ} {cur : Int64} (hi : s.incr i = .trying n cur) :
      Step cfg v s (.caswFail i (some (.ok [0]))) (s.goto i (.returned (some .transport)))
  | notSent {i : ι} {n : ℕ} {cur : Int64} (hi : s.incr i = .trying n cur) :
      Step cfg v s (.caswFail i none) (s.goto i (.returned (some .transport)))

theorem Config.WellFormed.step_effect (hcfg : cfg.WellFormed)
    (hv : s.cells cfg.key = some (putInt64 v)) (ha : cfg.Enabled s a) :
    Step cfg v s a (cfg.effect s a) := by
  cases a with
  | call i => exact .call ha
  | get i resp =>
      obtain ⟨⟨n, hi⟩, rfl⟩ := ha
      have hget : cfg.execGet s.cells = .ok (putInt64 v) := by simp [Config.execGet, hv]
      simpa only [Config.effect, hi, hget, afterGet, getI64_putInt64] using Step.get hi
  | getFail i =>
      obtain ⟨n, hi⟩ := ha
      exact .getFail hi
  | casw i resp =>
      obtain ⟨n, cur, hi, rfl⟩ := ha
      have hexec := hcfg.execCasw hv cur
      by_cases hcur : v = cur
      · subst hcur
        rw [if_pos rfl] at hexec
        simpa [Config.effect, hi, hexec, afterCasw, answersOne] using Step.won hi
      · rw [if_neg hcur] at hexec
        simpa [Config.effect, hi, hexec, afterCasw, answersOne, State.goto] using
          Step.lost hi hcur
  | caswFail i resp =>
      obtain ⟨n, cur, hi, rfl | rfl⟩ := ha
      · exact .notSent hi
      · have hexec := hcfg.execCasw hv cur
        by_cases hcur : v = cur
        · subst hcur
          rw [if_pos rfl] at hexec
          simpa [Config.effect, hi, hexec] using Step.wonUnseen hi
        · rw [if_neg hcur] at hexec
          simpa [Config.effect, hi, hexec, State.goto] using Step.lostUnseen hi

/-! ### The counter -/

/-- The `casw` calls of a run that answered `1`. -/
def wins (evs : List (Action ι)) : ℕ := evs.countP Action.won

/-- The counter such a run leaves. -/
def counter (evs : List (Action ι)) : Int64 := Int64.ofNat (wins evs)

omit [DecidableEq ι] in
theorem counter_append_of_won (ha : a.won = true) : counter (evs ++ [a]) = counter evs + 1 := by
  simp [counter, wins, ha]

omit [DecidableEq ι] in
theorem counter_append_of_not_won (ha : a.won = false) :
    counter (evs ++ [a]) = counter evs := by
  simp [counter, wins, ha]

/-- What is stored is the number of wins. -/
def CounterInv (cfg : Config) (evs : List (Action ι)) (s : State ι) : Prop :=
  s.cells cfg.key = some (putInt64 (counter evs))

theorem CounterInv.step (h : CounterInv cfg evs s) (hstep : Step cfg (counter evs) s a s') :
    CounterInv cfg (evs ++ [a]) s' := by
  cases hstep with
  | won | wonUnseen =>
      rw [CounterInv, counter_append_of_won rfl]
      exact Function.update_self ..
  | call | get | getFail | lost | lostUnseen | notSent =>
      rw [CounterInv, counter_append_of_not_won rfl]
      exact h

/-! ### Who returned nil -/

/-- The invocation whose `casw` is seen to win. -/
def Action.winner : Action ι → Option ι
  | .casw i resp => if answersOne resp then some i else none
  | .call _ | .get _ _ | .getFail _ | .caswFail _ _ => none

/-- The invocations that saw their `casw` win, in order. -/
def winners (evs : List (Action ι)) : List ι := evs.filterMap Action.winner

omit [DecidableEq ι] in
/-- Without transport errors every win is seen. -/
theorem length_winners (h : ∀ e ∈ evs, Action.failed e = false) :
    (winners evs).length = wins evs := by
  induction evs with
  | nil => rfl
  | cons e evs ih =>
      have ih := ih fun e' he' => h e' (by simp [he'])
      have he := h e (by simp)
      rw [winners, wins] at ih ⊢
      cases e with
      | call i | get i resp =>
          rw [List.filterMap_cons_none rfl, List.countP_cons_of_neg (by simp [Action.won]), ih]
      | casw i resp =>
          cases hans : answersOne resp <;>
            simp [Action.winner, Action.won, hans, ih]
      | getFail i | caswFail i resp => simp [Action.failed] at he

/-- An invocation returned nil if its `casw` was seen to win, and then did
nothing more. -/
structure WinnersInv (evs : List (Action ι)) (incr : ι → IncrPc) : Prop where
  nodup : (winners evs).Nodup
  mem : ∀ i, i ∈ winners evs ↔ incr i = .returned none

variable {incr : ι → IncrPc} {pc : IncrPc}

theorem WinnersInv.of_winner_none (h : WinnersInv evs incr) (ha : a.winner = none)
    (hold : incr i ≠ .returned none) (hnew : pc ≠ .returned none) :
    WinnersInv (evs ++ [a]) (Function.update incr i pc) := by
  have hevs : winners (evs ++ [a]) = winners evs := by simp [winners, ha]
  refine ⟨hevs ▸ h.nodup, fun j => ?_⟩
  rw [hevs, h.mem j]
  by_cases hj : j = i
  · subst hj; simp [hold, hnew]
  · simp [hj]

theorem WinnersInv.of_winner (h : WinnersInv evs incr) (ha : a.winner = some i)
    (hold : incr i ≠ .returned none) :
    WinnersInv (evs ++ [a]) (Function.update incr i (.returned none)) := by
  have hevs : winners (evs ++ [a]) = winners evs ++ [i] := by simp [winners, ha]
  have hnew : i ∉ winners evs := fun hi => hold ((h.mem i).mp hi)
  refine ⟨?_, fun j => ?_⟩
  · rw [hevs, List.nodup_append]
    refine ⟨h.nodup, List.nodup_singleton i, fun j hj k hk => ?_⟩
    obtain rfl := List.mem_singleton.mp hk
    rintro rfl
    exact hnew hj
  · rw [hevs, List.mem_append, h.mem j]
    by_cases hj : j = i
    · subst hj; simp
    · simp [hj]

theorem WinnersInv.step (h : WinnersInv evs s.incr) (hstep : Step cfg v s a s') :
    WinnersInv (evs ++ [a]) s'.incr := by
  cases hstep with
  | get hi =>
      refine h.of_winner_none rfl (by simp [hi]) ?_
      split <;> simp
  | won hi => exact h.of_winner rfl (by simp [hi])
  | call hi | getFail hi | lost hi | wonUnseen hi | lostUnseen hi | notSent hi =>
      exact h.of_winner_none rfl (by simp [hi]) (by simp)

/-! ### Lost races -/

/-- The `casw` calls of other invocations that answered `1`. -/
def rivals (i : ι) (evs : List (Action ι)) : ℕ :=
  evs.countP fun e => e.won && decide (e.invocation ≠ i)

theorem rivals_append_le (i : ι) (evs : List (Action ι)) (a : Action ι) :
    rivals i evs ≤ rivals i (evs ++ [a]) := by
  simp [rivals]

theorem rivals_append_of_won (ha : a.won = true) (hi : a.invocation ≠ i) :
    rivals i (evs ++ [a]) = rivals i evs + 1 := by
  simp [rivals, ha, hi]

/-- An invocation that has lost `n` races has been called and has seen `n`
others win since; and if the value it is about to compare with is stale, one
more. -/
def Raced (evs : List (Action ι)) (i : ι) : IncrPc → Prop
  | .idle => True
  | .reading n => ∃ l₁ l₂, evs = l₁ ++ .call i :: l₂ ∧ n ≤ rivals i l₂
  | .trying n cur => ∃ l₁ l₂, evs = l₁ ++ .call i :: l₂ ∧ n ≤ rivals i l₂ ∧
      (cur = counter evs ∨ n + 1 ≤ rivals i l₂)
  | .returned err => err = some tooManyRetries →
      ∃ l₁ l₂ resp l₃, evs = l₁ ++ .call i :: (l₂ ++ .get i resp :: l₃) ∧ 1000 ≤ rivals i l₂

/-- Somebody else's step: it wins, and is one more race this invocation has
lost, or leaves the counter alone. -/
theorem Raced.append (h : Raced evs i pc) (ha : a.invocation ≠ i) : Raced (evs ++ [a]) i pc := by
  cases pc with
  | idle => trivial
  | reading n =>
      obtain ⟨l₁, l₂, rfl, hn⟩ := h
      exact ⟨l₁, l₂ ++ [a], by simp, hn.trans (rivals_append_le i l₂ a)⟩
  | trying n cur =>
      obtain ⟨l₁, l₂, heq, hn, hcur⟩ := h
      refine ⟨l₁, l₂ ++ [a], by simp [heq], hn.trans (rivals_append_le i l₂ a), ?_⟩
      cases hwon : a.won with
      | true =>
          rw [rivals_append_of_won hwon ha]
          exact Or.inr (Nat.succ_le_succ hn)
      | false =>
          rw [counter_append_of_not_won hwon]
          exact hcur.imp_right fun hlost => hlost.trans (rivals_append_le i l₂ a)
  | returned err =>
      intro herr
      obtain ⟨l₁, l₂, resp, l₃, rfl, hn⟩ := h herr
      exact ⟨l₁, l₂, resp, l₃ ++ [a], by simp, hn⟩

/-- The step of the invocation itself. -/
theorem Raced.step (h : Raced evs a.invocation (s.incr a.invocation))
    (hstep : Step cfg (counter evs) s a s') :
    Raced (evs ++ [a]) a.invocation (s'.incr a.invocation) := by
  cases hstep with
  | @call i hi =>
      have hpc : (s.goto i (.reading 0)).incr i = .reading 0 := by simp [State.goto]
      change Raced _ i ((s.goto i (.reading 0)).incr i)
      rw [hpc]
      exact ⟨evs, [], rfl, Nat.zero_le _⟩
  | @get i n hi =>
      change Raced evs i (s.incr i) at h
      rw [hi] at h
      obtain ⟨l₁, l₂, rfl, hn⟩ := h
      change Raced _ i (Function.update s.incr i _ i)
      rw [Function.update_self]
      split
      · -- It has just read the counter, so what it holds is current.
        refine ⟨l₁, l₂ ++ [.get i _], List.append_assoc .., hn.trans (rivals_append_le ..),
          Or.inl ?_⟩
        exact (counter_append_of_not_won rfl).symm
      · -- The thousandth lost race: this read was its last step.
        intro _
        exact ⟨l₁, l₂, _, [], List.append_assoc .., by omega⟩
  | @lost i n cur hi hne =>
      change Raced evs i (s.incr i) at h
      rw [hi] at h
      obtain ⟨l₁, l₂, rfl, hn, hcur⟩ := h
      change Raced _ i (Function.update s.incr i _ i)
      rw [Function.update_self]
      -- The comparison failed, so the value was stale.
      have hstale : n + 1 ≤ rivals i l₂ := hcur.resolve_left fun heq => hne heq.symm
      exact ⟨l₁, l₂ ++ [.casw i _], List.append_assoc .., hstale.trans (rivals_append_le ..)⟩
  | @won i n hi | @getFail i n hi | @wonUnseen i n hi | @lostUnseen i n cur hi
  | @notSent i n cur hi =>
      change Raced _ i (Function.update s.incr i _ i)
      rw [Function.update_self]
      intro herr
      simp [tooManyRetries] at herr

omit [DecidableEq ι] in
theorem Step.incr_of_ne [DecidableEq ι] (hstep : Step cfg v s a s') {j : ι}
    (hj : j ≠ a.invocation) : s'.incr j = s.incr j := by
  cases hstep <;> exact Function.update_of_ne hj _ _

/-! ### The protocol -/

theorem Config.WellFormed.history (hcfg : cfg.WellFormed) (hrun : cfg.system.Run evs s) :
    CounterInv cfg evs s ∧ WinnersInv evs s.incr ∧ ∀ i, Raced evs i (s.incr i) := by
  refine hrun.history (I := fun evs s =>
    CounterInv cfg evs s ∧ WinnersInv evs s.incr ∧ ∀ i, Raced evs i (s.incr i)) ?_ ?_
  · rintro s ⟨hidle, v, hseed, hv⟩
    have hzero : v = putInt64 (counter ([] : List (Action ι))) := by
      have hok : seed "cas" = .ok (putInt64 (Int64.ofNat 0)) := by decide
      exact Except.ok.inj (hseed.symm.trans hok)
    refine ⟨hv.trans (congrArg some hzero), ⟨List.nodup_nil, fun i => ?_⟩, fun i => ?_⟩
    · simp [winners, hidle i]
    · rw [hidle i]
      trivial
  · rintro evs s a _ ⟨hcounter, hwinners, hraced⟩ ha
    have hstep := hcfg.step_effect hcounter ha
    refine ⟨hcounter.step hstep, hwinners.step hstep, fun i => ?_⟩
    by_cases hi : i = a.invocation
    · subst hi
      exact (hraced a.invocation).step hstep
    · rw [show (cfg.system.effect s a).incr i = s.incr i from hstep.incr_of_ne hi]
      exact (hraced i).append (Ne.symm hi)

omit [DecidableEq ι] in
theorem natOf_counter (evs : List (Action ι)) :
    natOf (putInt64 (counter evs)) = wins evs % 2 ^ 64 := by
  rw [putInt64, counter, Int64.toUInt64_ofNat', putUint64, natOf_bytesOf]
  simp

theorem WinnersInv.ncard (h : WinnersInv evs incr) :
    {i | incr i = .returned none}.ncard = (winners evs).length := by
  have hset : {i | incr i = .returned none} = ((winners evs).toFinset : Set ι) := by
    ext i
    simp [h.mem i]
  rw [hset, Set.ncard_coe_finset, List.toFinset_card_of_nodup h.nodup]

/-- In every run the key holds eight bytes, a big-endian counter of the `casw`
calls that answered `1`. Without transport errors these are the invocations that
returned nil, so no increment is lost and none is made twice. And an invocation
gives up only after a thousand `casw` calls of others have won between its call
and its last read. -/
theorem optimistic_increment (hcfg : cfg.WellFormed) (hrun : cfg.system.Run evs s) :
    (∃ v, s.cells cfg.key = some v ∧ v.length = 8 ∧ natOf v = wins evs % 2 ^ 64 ∧
      ((∀ e ∈ evs, Action.failed e = false) →
        natOf v = {i | s.incr i = .returned none}.ncard % 2 ^ 64)) ∧
      ∀ i, s.incr i = .returned (some tooManyRetries) →
        ∃ l₁ l₂ resp l₃, evs = l₁ ++ .call i :: (l₂ ++ .get i resp :: l₃) ∧
          1000 ≤ rivals i l₂ := by
  obtain ⟨hcounter, hwinners, hraced⟩ := hcfg.history hrun
  refine ⟨⟨_, hcounter, length_putInt64 _, natOf_counter evs, fun hok => ?_⟩, fun i hi => ?_⟩
  · rw [natOf_counter, hwinners.ncard, length_winners hok]
  · have h := hraced i
    rw [hi] at h
    exact h rfl

/-- The std encoder and a one-byte key. -/
def oneByteKey : Config where
  encodeKeyArgs key := bytesOf 2 key.length ++ key
  key := [7]

/-- Both read zero, the first one wins and the second one has to read again. -/
def twoIncrements : List (Action Bool) :=
  [.call false, .call true, .get false (.ok (bytesOf 8 0)), .get true (.ok (bytesOf 8 0)),
   .casw false (.ok [1]), .casw true (.ok [0]), .get true (.ok (bytesOf 8 1)),
   .casw true (.ok [1])]

theorem optimistic_increment_two :
    ∃ s, oneByteKey.system.Run twoIncrements s ∧
      (s.incr false, s.incr true) = (.returned none, .returned none) ∧
      ∃ v, s.cells [7] = some v ∧ v.length = 8 ∧
        natOf v = {i | s.incr i = .returned none}.ncard % 2 ^ 64 := by
  have hreplay : (oneByteKey.system.replay
      { cells := fun _ => some (List.replicate 8 0), incr := fun _ => .idle }
      twoIncrements).map (fun s => (s.incr false, s.incr true)) =
      some (.returned none, .returned none) := by decide +kernel
  obtain ⟨s, hrun, hs⟩ := System.run_of_replay hreplay ⟨fun _ => rfl, _, rfl, rfl⟩
  have hcfg : oneByteKey.WellFormed := ⟨rfl, by decide⟩
  obtain ⟨⟨v, hv, hlen, _, hcount⟩, _⟩ := optimistic_increment hcfg hrun
  exact ⟨s, hrun, hs, v, hv, hlen, hcount (by decide)⟩

end RostamBench.Netkv.CasIncr
