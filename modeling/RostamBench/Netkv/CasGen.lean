import RostamBench.Lib.Lockstep
import RostamBench.Netkv.Aerospike
import RostamBench.Netkv.CasIncr

/-!
`aerospikeEngine.casIncr`, and that it is the same experiment as the one of
`CasIncr`.

An invocation reads bin `c` with the generation of the record, puts one more than
it read under that generation, and reads again when the generation had moved on;
after a thousand conflicts it gives up. Rostam's loop notices a conflict by the
value, this one by the version.

A `Slot` says who makes which step, and whether it fails on its way, but not what
the server answers. The two systems are compared slot by slot. What ties them
together is the number `w` of conditional writes that have succeeded so far: the
counter is `w` on both sides, the generation is `w` more than it was at the
beginning, and an invocation that is about to write holds what both were at one
earlier count (`Sim`). As long as `w` is below `2 ^ 64` the value tells two counts
apart as well as the generation does.
-/

namespace RostamBench.Netkv.CasGen

open BigEndian Transition Server Aerospike

/-! ### The loop -/

inductive ResultCode
  | keyNotFound
  | generation
  deriving DecidableEq, Repr

inductive IncrErr
  /-- The call failed on its way. -/
  | transport
  | code (rc : ResultCode)
  | text (msg : String)
  deriving DecidableEq

def tooManyRetries : IncrErr := .text "cas: too many retries"

/-- What `Get(policy, key, "c")` returns of the record. -/
structure Reply where
  c : Option BinValue
  generation : ℕ
  deriving DecidableEq, Repr

/-- Where an invocation is; `none` is a nil error. The number counts the attempts
made so far. -/
inductive IncrPc
  | idle
  | reading (tries : ℕ)
  | trying (tries : ℕ) (cur : Int64) (gen : ℕ)
  | returned (err : Option IncrErr)
  deriving DecidableEq

structure State (ι : Type*) where
  store : Store
  incr : ι → IncrPc

inductive Action (ι : Type*)
  | call (i : ι)
  | get (i : ι) (resp : Except ResultCode Reply)
  | put (i : ι) (resp : Except ResultCode Unit)
  /-- The read fails on the client's side. -/
  | getFail (i : ι)
  /-- The conditional write fails on the client's side; if it was executed its
  answer is lost. -/
  | putFail (i : ι) (resp : Option (Except ResultCode Unit))

variable {ι : Type*}

def Action.invocation : Action ι → ι
  | .call i | .get i _ | .put i _ | .getFail i | .putFail i _ => i

/-- `asInt` of the bin. -/
def asInt : Option BinValue → Int64
  | some (.int n) => n
  | some (.str _) | some (.blob _) | none => 0

/-- The conditional write was made. -/
def Action.won : Action ι → Bool
  | .put _ resp | .putFail _ (some resp) => resp.isOk
  | .call _ | .get _ _ | .getFail _ | .putFail _ none => false

/-- What follows a read: the next attempt, if there is one left. -/
def afterGet (tries : ℕ) : Except ResultCode Reply → IncrPc
  | .error rc => .returned (some (.code rc))
  | .ok rec =>
      if tries < 1000 then .trying tries (asInt rec.c) rec.generation
      else .returned (some tooManyRetries)

def afterPut (tries : ℕ) : Except ResultCode Unit → IncrPc
  | .ok () => .returned none
  | .error .generation => .reading (tries + 1)
  | .error .keyNotFound => .returned (some (.code .keyNotFound))

def execGet (key : Bytes) (store : Store) : Except ResultCode Reply :=
  match store key with
  | none => .error .keyNotFound
  | some rec => .ok { c := rec.bins "c", generation := rec.generation }

/-- `Put` of one more than `cur` under the generation `gen`. -/
def execPut (key : Bytes) (cur : Int64) (gen : ℕ) (store : Store) :
    Store × Except ResultCode Unit :=
  match putIfGeneration store key gen [("c", .int (cur + 1))] with
  | some store => (store, .ok ())
  | none => (store, .error .generation)

def Enabled (key : Bytes) (s : State ι) : Action ι → Prop
  | .call i => s.incr i = .idle
  | .get i resp => (∃ n, s.incr i = .reading n) ∧ resp = execGet key s.store
  | .getFail i => ∃ n, s.incr i = .reading n
  | .put i resp => ∃ n cur gen, s.incr i = .trying n cur gen ∧
      resp = (execPut key cur gen s.store).2
  | .putFail i resp => ∃ n cur gen, s.incr i = .trying n cur gen ∧
      (resp = none ∨ resp = some (execPut key cur gen s.store).2)

instance (key : Bytes) (s : State ι) (a : Action ι) : Decidable (Enabled key s a) :=
  match a with
  | .call i => inferInstanceAs (Decidable (s.incr i = .idle))
  | .get i resp =>
      match h : s.incr i with
      | .reading n => decidable_of_iff (resp = execGet key s.store) (by simp [Enabled, h])
      | .idle | .trying _ _ _ | .returned _ => isFalse (by simp [Enabled, h])
  | .getFail i =>
      match h : s.incr i with
      | .reading n => isTrue ⟨n, h⟩
      | .idle | .trying _ _ _ | .returned _ => isFalse (by simp [Enabled, h])
  | .put i resp =>
      match h : s.incr i with
      | .trying n cur gen =>
          decidable_of_iff (resp = (execPut key cur gen s.store).2) (by simp [Enabled, h])
      | .idle | .reading _ | .returned _ => isFalse (by simp [Enabled, h])
  | .putFail i resp =>
      match h : s.incr i with
      | .trying n cur gen =>
          decidable_of_iff (resp = none ∨ resp = some (execPut key cur gen s.store).2)
            (by simp [Enabled, h])
      | .idle | .reading _ | .returned _ => isFalse (by simp [Enabled, h])

variable [DecidableEq ι]

def State.goto (s : State ι) (i : ι) (pc : IncrPc) : State ι :=
  { s with incr := Function.update s.incr i pc }

def effect (key : Bytes) (s : State ι) : Action ι → State ι
  | .call i => s.goto i (.reading 0)
  | .get i resp =>
      match s.incr i with
      | .reading n => s.goto i (afterGet n resp)
      | _ => s
  | .getFail i => s.goto i (.returned (some .transport))
  | .put i resp =>
      match s.incr i with
      | .trying n cur gen =>
          { s.goto i (afterPut n resp) with store := (execPut key cur gen s.store).1 }
      | _ => s
  | .putFail i none => s.goto i (.returned (some .transport))
  | .putFail i (some _) =>
      match s.incr i with
      | .trying _ cur gen =>
          { s.goto i (.returned (some .transport)) with
            store := (execPut key cur gen s.store).1 }
      | _ => s

/-- All invocations are still to come, and the key is one of those seeded for mode
`cas`. -/
def system (key : Bytes) : System (State ι) (Action ι) where
  init s := (∀ i, s.incr i = .idle) ∧
    ∃ keys store₀, key ∈ keys ∧ setupOp .cas keys store₀ = some s.store
  enabled := Enabled key
  effect := effect key

instance (key : Bytes) (s : State ι) (a : Action ι) :
    Decidable ((system key : System (State ι) (Action ι)).enabled s a) :=
  inferInstanceAs (Decidable (Enabled key s a))

/-! ### Schedules -/

/-- A step of an invocation without the answer it gets. -/
inductive Slot (ι : Type*)
  | call (i : ι)
  | read (i : ι)
  | write (i : ι)
  | readFail (i : ι)
  | writeFail (i : ι) (executed : Bool)
  deriving DecidableEq

def Action.slot : Action ι → Slot ι
  | .call i => .call i
  | .get i _ => .read i
  | .put i _ => .write i
  | .getFail i => .readFail i
  | .putFail i resp => .writeFail i resp.isSome

/-- The slot of a step of Rostam's loop. -/
def rostamSlot : CasIncr.Action ι → Slot ι
  | .call i => .call i
  | .get i _ => .read i
  | .casw i _ => .write i
  | .getFail i => .readFail i
  | .caswFail i resp => .writeFail i resp.isSome

/-- A step of the invocation that is a call of the server. -/
def Slot.isTripOf (i : ι) : Slot ι → Bool
  | .call _ => false
  | .read j | .write j | .readFail j | .writeFail j _ => decide (j = i)

def roundTrips (i : ι) (evs : List (Action ι)) : ℕ := evs.countP fun e => e.slot.isTripOf i

def rostamRoundTrips (i : ι) (evs : List (CasIncr.Action ι)) : ℕ :=
  evs.countP fun e => (rostamSlot e).isTripOf i

/-- What an error of either engine is to the load generator. -/
inductive Failure
  | transport
  | server
  | text (msg : String)
  deriving DecidableEq

def IncrErr.failure : IncrErr → Failure
  | .transport => .transport
  | .code _ => .server
  | .text msg => .text msg

def rostamFailure : CasIncr.IncrErr → Failure
  | .transport => .transport
  | .op _ => .server
  | .text msg => .text msg

/-- The outcome of an invocation that has returned. -/
def IncrPc.outcome : IncrPc → Option (Option Failure)
  | .returned err => some (err.map IncrErr.failure)
  | .idle | .reading _ | .trying _ _ _ => none

def rostamOutcome : CasIncr.IncrPc → Option (Option Failure)
  | .returned err => some (err.map rostamFailure)
  | .idle | .reading _ | .trying _ _ => none

/-! ### The relation -/

/-- Two invocations at the same point, when `w` writes have succeeded; one that is
about to write holds the counter and the generation of some earlier count. -/
inductive SimPc (g₀ w : ℕ) : CasIncr.IncrPc → IncrPc → Prop
  | idle : SimPc g₀ w .idle .idle
  | reading (n : ℕ) : SimPc g₀ w (.reading n) (.reading n)
  | trying (n : ℕ) {k : ℕ} (hk : k ≤ w) :
      SimPc g₀ w (.trying n (Int64.ofNat k)) (.trying n (Int64.ofNat k) (g₀ + k))
  | returned {err : Option CasIncr.IncrErr} {err' : Option IncrErr}
      (herr : err.map rostamFailure = err'.map IncrErr.failure) :
      SimPc g₀ w (.returned err) (.returned err')

/-- Both systems have seen `w` conditional writes succeed. -/
structure Sim (cfg : CasIncr.Config) (g₀ w : ℕ) (s : CasIncr.State ι) (t : State ι) : Prop where
  counter : s.cells cfg.key = some (putInt64 (Int64.ofNat w))
  record : ∃ rec, t.store cfg.key = some rec ∧ rec.bins "c" = some (.int (Int64.ofNat w)) ∧
    rec.generation = g₀ + w
  invocations : ∀ i, SimPc g₀ w (s.incr i) (t.incr i)

variable {cfg : CasIncr.Config} {g₀ w : ℕ} {s : CasIncr.State ι} {t : State ι} {i : ι}
  {pc : CasIncr.IncrPc} {pc' : IncrPc} {n : ℕ} {cur : Int64} {gen : ℕ}

omit [DecidableEq ι] in
theorem SimPc.mono (h : SimPc g₀ w pc pc') {w' : ℕ} (hw : w ≤ w') : SimPc g₀ w' pc pc' := by
  cases h with
  | idle => exact .idle
  | reading n => exact .reading n
  | trying n hk => exact .trying n (hk.trans hw)
  | returned herr => exact .returned herr

omit [DecidableEq ι] in
theorem SimPc.outcome_eq (h : SimPc g₀ w pc pc') : rostamOutcome pc = pc'.outcome := by
  cases h with
  | returned herr => exact congrArg some herr
  | idle | reading | trying => rfl

omit [DecidableEq ι] in
theorem SimPc.idle_iff (h : SimPc g₀ w pc pc') : pc = .idle ↔ pc' = .idle := by
  cases h <;> simp

omit [DecidableEq ι] in
theorem SimPc.reading_iff (h : SimPc g₀ w pc pc') : pc = .reading n ↔ pc' = .reading n := by
  cases h <;> simp

omit [DecidableEq ι] in
theorem SimPc.trying_iff (h : SimPc g₀ w pc pc') :
    (∃ n cur, pc = .trying n cur) ↔ ∃ n cur gen, pc' = .trying n cur gen := by
  cases h <;> simp

omit [DecidableEq ι] in
theorem SimPc.trying_inv {m : ℕ} {cur' : Int64}
    (h : SimPc g₀ w (.trying n cur) (.trying m cur' gen)) :
    n = m ∧ ∃ k ≤ w, cur = Int64.ofNat k ∧ cur' = Int64.ofNat k ∧ gen = g₀ + k := by
  cases h with
  | trying n hk => exact ⟨rfl, _, hk, rfl, rfl, rfl⟩

/-- One invocation of each moves, to the same point. -/
theorem simPc_update {f : ι → CasIncr.IncrPc} {f' : ι → IncrPc}
    (h : ∀ j, SimPc g₀ w (f j) (f' j)) (hpc : SimPc g₀ w pc pc') (j : ι) :
    SimPc g₀ w (Function.update f i pc j) (Function.update f' i pc' j) := by
  by_cases hj : j = i
  · subst hj
    simpa using hpc
  · simpa [hj] using h j

theorem Sim.goto (h : Sim cfg g₀ w s t) (hpc : SimPc g₀ w pc pc') :
    Sim cfg g₀ w (s.goto i pc) (t.goto i pc') :=
  ⟨h.counter, h.record, simPc_update h.invocations hpc⟩

omit [DecidableEq ι] in
theorem Sim.execGet (h : Sim cfg g₀ w s t) :
    cfg.execGet s.cells = .ok (putInt64 (Int64.ofNat w)) ∧
      execGet cfg.key t.store = .ok { c := some (.int (Int64.ofNat w)), generation := g₀ + w } := by
  obtain ⟨rec, hrec, hc, hgen⟩ := h.record
  exact ⟨by simp [CasIncr.Config.execGet, h.counter], by simp [CasGen.execGet, hrec, hc, hgen]⟩

omit [DecidableEq ι] in
theorem ofNat_inj {k : ℕ} (hk : k < 2 ^ 64) (hw : w < 2 ^ 64)
    (h : Int64.ofNat k = Int64.ofNat w) : k = w := by
  have hmod : UInt64.ofNat k = UInt64.ofNat w := by
    rw [← Int64.toUInt64_ofNat', ← Int64.toUInt64_ofNat', h]
  have hnat := congrArg UInt64.toNat hmod
  rwa [UInt64.toNat_ofNat_of_lt' hk, UInt64.toNat_ofNat_of_lt' hw] at hnat

/-- Nobody has written since the read: the value and the generation are current, and
both stores make the write. -/
theorem Sim.write_current (hcfg : cfg.WellFormed) (h : Sim cfg g₀ w s t) :
    (cfg.execCasw (Int64.ofNat w) s.cells).2 = .ok [1] ∧
      (execPut cfg.key (Int64.ofNat w) (g₀ + w) t.store).2 = .ok () ∧
      ∀ {pc pc'}, SimPc g₀ (w + 1) pc pc' → Sim cfg g₀ (w + 1)
        { s.goto i pc with cells := (cfg.execCasw (Int64.ofNat w) s.cells).1 }
        { t.goto i pc' with store := (execPut cfg.key (Int64.ofNat w) (g₀ + w) t.store).1 } := by
  obtain ⟨rec, hrec, hc, hgen⟩ := h.record
  have hexec := hcfg.execCasw h.counter (Int64.ofNat w)
  rw [if_pos rfl] at hexec
  have hput : execPut cfg.key (Int64.ofNat w) (g₀ + w) t.store =
      (put t.store cfg.key [("c", .int (Int64.ofNat w + 1))], .ok ()) := by
    simp [execPut, putIfGeneration, generationOf, hrec, hgen]
  have hsucc : Int64.ofNat (w + 1) = Int64.ofNat w + 1 := Int64.ofNat_add w 1
  rw [hexec, hput]
  refine ⟨rfl, rfl, fun hpc => ⟨?_, ⟨_, Function.update_self .., ?_, ?_⟩, ?_⟩⟩
  · rw [hsucc]
    exact Function.update_self ..
  · rw [hsucc]
    simp [writeBins, setBin]
  · simp [generationOf, hrec, hgen, Nat.add_assoc]
  · exact simPc_update (fun j => (h.invocations j).mono (Nat.le_succ w)) hpc

/-- Somebody has: neither store does. -/
theorem Sim.write_stale (hcfg : cfg.WellFormed) (h : Sim cfg g₀ w s t) (hw : w < 2 ^ 64) {k : ℕ}
    (hk : k < w) :
    (cfg.execCasw (Int64.ofNat k) s.cells).2 = .ok [0] ∧
      (execPut cfg.key (Int64.ofNat k) (g₀ + k) t.store).2 = .error .generation ∧
      ∀ {pc pc'}, SimPc g₀ w pc pc' → Sim cfg g₀ w
        { s.goto i pc with cells := (cfg.execCasw (Int64.ofNat k) s.cells).1 }
        { t.goto i pc' with store := (execPut cfg.key (Int64.ofNat k) (g₀ + k) t.store).1 } := by
  obtain ⟨rec, hrec, hc, hgen⟩ := h.record
  have hexec := hcfg.execCasw h.counter (Int64.ofNat k)
  have hne : Int64.ofNat w ≠ Int64.ofNat k := by
    intro heq
    have hkw := ofNat_inj (by omega) hw heq.symm
    omega
  rw [if_neg hne] at hexec
  have hput : execPut cfg.key (Int64.ofNat k) (g₀ + k) t.store =
      (t.store, .error .generation) := by
    have hgen' : ¬ w = k := by omega
    simp [execPut, putIfGeneration, generationOf, hrec, hgen, hgen']
  rw [hexec, hput]
  exact ⟨rfl, rfl, fun hpc => h.goto hpc⟩

/-- A conditional write of two invocations at the same point is made by both stores
or by neither. -/
theorem Sim.write (hcfg : cfg.WellFormed) (h : Sim cfg g₀ w s t) (hw : w < 2 ^ 64)
    (hi : s.incr i = .trying n cur) {m : ℕ} {cur' : Int64} (hi' : t.incr i = .trying m cur' gen) :
    n = m ∧
      (((cfg.execCasw cur s.cells).2 = .ok [1] ∧ (execPut cfg.key cur' gen t.store).2 = .ok () ∧
          ∀ {pc pc'}, SimPc g₀ (w + 1) pc pc' → Sim cfg g₀ (w + 1)
            { s.goto i pc with cells := (cfg.execCasw cur s.cells).1 }
            { t.goto i pc' with store := (execPut cfg.key cur' gen t.store).1 }) ∨
        ((cfg.execCasw cur s.cells).2 = .ok [0] ∧
          (execPut cfg.key cur' gen t.store).2 = .error .generation ∧
          ∀ {pc pc'}, SimPc g₀ w pc pc' → Sim cfg g₀ w
            { s.goto i pc with cells := (cfg.execCasw cur s.cells).1 }
            { t.goto i pc' with store := (execPut cfg.key cur' gen t.store).1 })) := by
  have hpc := h.invocations i
  rw [hi, hi'] at hpc
  obtain ⟨hn, k, hk, rfl, rfl, rfl⟩ := hpc.trying_inv
  refine ⟨hn, ?_⟩
  rcases hk.lt_or_eq with hlt | rfl
  · exact Or.inr (h.write_stale hcfg hw hlt)
  · exact Or.inl (h.write_current hcfg)

/-! ### Steps -/

variable {a : CasIncr.Action ι} {b : Action ι}

/-- Steps in the same slot have the same answer and keep the relation. -/
theorem Sim.step (hcfg : cfg.WellFormed) (h : Sim cfg g₀ w s t) (hw : w < 2 ^ 64)
    (ha : cfg.Enabled s a) (hb : Enabled cfg.key t b) (hslot : b.slot = rostamSlot a) :
    a.won = b.won ∧ Sim cfg g₀ (w + a.won.toNat) (cfg.effect s a) (effect cfg.key t b) := by
  cases a with
  | call i =>
      cases b <;> cases hslot
      exact ⟨rfl, h.goto (.reading 0)⟩
  | get i resp =>
      cases b <;> cases hslot
      obtain ⟨⟨n, hi⟩, rfl⟩ := ha
      obtain ⟨⟨m, hi'⟩, rfl⟩ := hb
      obtain rfl : n = m :=
        IncrPc.reading.inj (((h.invocations i).reading_iff.mp hi).symm.trans hi')
      refine ⟨rfl, ?_⟩
      simp only [CasIncr.Config.effect, effect, hi, hi', h.execGet.1, h.execGet.2]
      refine h.goto ?_
      rw [CasIncr.afterGet, afterGet, CasIncr.getI64_putInt64]
      split
      · exact .trying n (le_refl w)
      · exact .returned rfl
  | getFail i =>
      cases b <;> cases hslot
      exact ⟨rfl, h.goto (.returned rfl)⟩
  | casw i resp =>
      cases b <;> cases hslot
      obtain ⟨n, cur, hi, rfl⟩ := ha
      obtain ⟨m, cur', gen, hi', rfl⟩ := hb
      simp only [CasIncr.Config.effect, effect, hi, hi']
      obtain ⟨rfl, ⟨hcasw, hput, hsim⟩ | ⟨hcasw, hput, hsim⟩⟩ := h.write hcfg hw hi hi'
      · rw [hcasw, hput]
        exact ⟨rfl, hsim (.returned rfl)⟩
      · rw [hcasw, hput]
        exact ⟨rfl, hsim (.reading (n + 1))⟩
  | caswFail i resp =>
      cases b with
      | putFail j resp' =>
          obtain ⟨rfl, hexec⟩ : j = i ∧ resp'.isSome = resp.isSome := by
            simpa [Action.slot, rostamSlot] using hslot
          obtain ⟨n, cur, hi, hresp⟩ := ha
          obtain ⟨m, cur', gen, hi', hresp'⟩ := hb
          rcases hresp with rfl | rfl
          · obtain rfl : resp' = none := by simpa using hexec
            exact ⟨rfl, h.goto (.returned rfl)⟩
          · obtain rfl : resp' = some (execPut cfg.key cur' gen t.store).2 := by
              refine hresp'.resolve_left fun hnone => ?_
              simp [hnone] at hexec
            simp only [CasIncr.Config.effect, effect, hi, hi']
            obtain ⟨-, ⟨hcasw, hput, hsim⟩ | ⟨hcasw, hput, hsim⟩⟩ := h.write hcfg hw hi hi'
            · rw [hcasw, hput]
              exact ⟨rfl, hsim (.returned rfl)⟩
            · rw [hcasw, hput]
              exact ⟨rfl, hsim (.returned rfl)⟩
      | call | get | put | getFail => cases hslot

omit [DecidableEq ι] in
/-- Where Rostam's invocation can take a step, Aerospike's can. -/
theorem Sim.follow (h : Sim cfg g₀ w s t) (ha : cfg.Enabled s a) :
    ∃ b, Enabled cfg.key t b ∧ b.slot = rostamSlot a := by
  cases a with
  | call i => exact ⟨.call i, (h.invocations i).idle_iff.mp ha, rfl⟩
  | get i resp =>
      obtain ⟨⟨n, hi⟩, -⟩ := ha
      exact ⟨.get i _, ⟨⟨n, (h.invocations i).reading_iff.mp hi⟩, rfl⟩, rfl⟩
  | getFail i =>
      obtain ⟨n, hi⟩ := ha
      exact ⟨.getFail i, ⟨n, (h.invocations i).reading_iff.mp hi⟩, rfl⟩
  | casw i resp =>
      obtain ⟨n, cur, hi, -⟩ := ha
      obtain ⟨m, cur', gen, hi'⟩ := (h.invocations i).trying_iff.mp ⟨n, cur, hi⟩
      exact ⟨.put i _, ⟨m, cur', gen, hi', rfl⟩, rfl⟩
  | caswFail i resp =>
      obtain ⟨n, cur, hi, hresp⟩ := ha
      obtain ⟨m, cur', gen, hi'⟩ := (h.invocations i).trying_iff.mp ⟨n, cur, hi⟩
      rcases hresp with rfl | rfl
      · exact ⟨.putFail i none, ⟨m, cur', gen, hi', Or.inl rfl⟩, rfl⟩
      · exact ⟨.putFail i (some _), ⟨m, cur', gen, hi', Or.inr rfl⟩, rfl⟩

omit [DecidableEq ι] in
/-- And the other way round. -/
theorem Sim.lead (h : Sim cfg g₀ w s t) (hb : Enabled cfg.key t b) :
    ∃ a, cfg.Enabled s a ∧ rostamSlot a = b.slot := by
  cases b with
  | call i => exact ⟨.call i, (h.invocations i).idle_iff.mpr hb, rfl⟩
  | get i resp =>
      obtain ⟨⟨n, hi⟩, -⟩ := hb
      exact ⟨.get i _, ⟨⟨n, (h.invocations i).reading_iff.mpr hi⟩, rfl⟩, rfl⟩
  | getFail i =>
      obtain ⟨n, hi⟩ := hb
      exact ⟨.getFail i, ⟨n, (h.invocations i).reading_iff.mpr hi⟩, rfl⟩
  | put i resp =>
      obtain ⟨m, cur', gen, hi', -⟩ := hb
      obtain ⟨n, cur, hi⟩ := (h.invocations i).trying_iff.mpr ⟨m, cur', gen, hi'⟩
      exact ⟨.casw i _, ⟨n, cur, hi, rfl⟩, rfl⟩
  | putFail i resp =>
      obtain ⟨m, cur', gen, hi', hresp⟩ := hb
      obtain ⟨n, cur, hi⟩ := (h.invocations i).trying_iff.mpr ⟨m, cur', gen, hi'⟩
      rcases hresp with rfl | rfl
      · exact ⟨.caswFail i none, ⟨n, cur, hi, Or.inl rfl⟩, rfl⟩
      · exact ⟨.caswFail i (some _), ⟨n, cur, hi, Or.inr rfl⟩, rfl⟩

/-! ### Runs -/

variable {evs : List (CasIncr.Action ι)} {evs' : List (Action ι)}

/-- The conditional writes of a run that were made. -/
def wins (evs : List (Action ι)) : ℕ := evs.countP Action.won

/-- The runs have answered alike so far, and their states are related. -/
def Alike (cfg : CasIncr.Config) (evs : List (CasIncr.Action ι)) (s : CasIncr.State ι)
    (evs' : List (Action ι)) (t : State ι) : Prop :=
  evs.map CasIncr.Action.won = evs'.map Action.won ∧ ∃ g₀, Sim cfg g₀ (CasIncr.wins evs) s t

omit [DecidableEq ι] in
theorem Alike.wins_eq (h : Alike cfg evs s evs' t) : CasIncr.wins evs = wins evs' := by
  have hcount := congrArg (List.countP id) h.1
  rwa [List.countP_map, List.countP_map] at hcount

omit [DecidableEq ι] in
theorem wins_append (evs : List (CasIncr.Action ι)) (a : CasIncr.Action ι) :
    CasIncr.wins (evs ++ [a]) = CasIncr.wins evs + a.won.toNat := by
  cases ha : a.won <;> simp [CasIncr.wins, ha]

/-- Both counters are seeded with zero. -/
theorem Alike.start {s : CasIncr.State ι} {t : State ι} (hs : cfg.system.init s)
    (ht : (system cfg.key).init t) : Alike cfg [] s [] t := by
  obtain ⟨hidle, v, hseed, hv⟩ := hs
  obtain ⟨hidle', keys, store₀, hkey, hsetup⟩ := ht
  have hzero : v = putInt64 (Int64.ofNat 0) := by
    have hok : CasIncr.seed "cas" = .ok (putInt64 (Int64.ofNat 0)) := by decide
    exact Except.ok.inj (hseed.symm.trans hok)
  have hc : binsOf (t.store cfg.key) "c" = some (.int 0) :=
    setupOp_seeds rfl (fun old => by simp [writeBins, setBin]) hsetup hkey
  obtain ⟨rec, hrec, hc⟩ := Option.bind_eq_some_iff.mp hc
  refine ⟨rfl, rec.generation, hv.trans (congrArg some hzero), ⟨rec, hrec, hc, rfl⟩, fun i => ?_⟩
  rw [hidle i, hidle' i]
  exact .idle

theorem Alike.next (hcfg : cfg.WellFormed) (h : Alike cfg evs s evs' t)
    (hw : CasIncr.wins evs < 2 ^ 64) (ha : cfg.Enabled s a) (hb : Enabled cfg.key t b)
    (hslot : b.slot = rostamSlot a) :
    Alike cfg (evs ++ [a]) (cfg.effect s a) (evs' ++ [b]) (effect cfg.key t b) := by
  obtain ⟨hevs, g₀, hsim⟩ := h
  obtain ⟨hwon, hsim⟩ := hsim.step hcfg hw ha hb hslot
  refine ⟨by simp [hevs, hwon], g₀, ?_⟩
  rw [wins_append]
  exact hsim

/-- Aerospike follows Rostam. -/
theorem lockstep (hcfg : cfg.WellFormed) :
    Lockstep (cfg.system : System (CasIncr.State ι) (CasIncr.Action ι)) (system cfg.key)
      rostamSlot Action.slot (fun evs => CasIncr.wins evs < 2 ^ 64) (Alike cfg) where
  bound h := by
    rw [wins_append] at h
    omega
  start := Alike.start
  follow _ h ha := h.2.choose_spec.follow ha
  step hw h ha hb hslot := by
    refine h.next hcfg ?_ ha hb hslot
    rw [wins_append] at hw
    omega

/-- Rostam follows Aerospike. -/
theorem lockstep_back (hcfg : cfg.WellFormed) :
    Lockstep (system cfg.key) (cfg.system : System (CasIncr.State ι) (CasIncr.Action ι))
      Action.slot rostamSlot (fun evs' => wins evs' < 2 ^ 64)
      (fun evs' t evs s => Alike cfg evs s evs' t) where
  bound h := by
    rw [wins, List.countP_append] at h
    exact Nat.lt_of_le_of_lt (Nat.le_add_right _ _) h
  start ht hs := Alike.start hs ht
  follow _ h hb := h.2.choose_spec.lead hb
  step hw h hb ha hslot := by
    refine h.next hcfg ?_ ha hb hslot.symm
    rw [wins, List.countP_append] at hw
    rw [h.wins_eq]
    exact Nat.lt_of_le_of_lt (Nat.le_add_right _ _) hw

theorem roundTrips_eq (hsched : evs'.map Action.slot = evs.map rostamSlot) (i : ι) :
    rostamRoundTrips i evs = roundTrips i evs' := by
  have hcount := congrArg (List.countP (Slot.isTripOf i)) hsched
  rw [List.countP_map, List.countP_map] at hcount
  exact hcount.symm

/-- Under one schedule the two loops do the same: a schedule that one of them can
follow the other can follow as well, every conditional write succeeds in both or in
neither, every invocation has the same outcome after the same number of round
trips, and the counters are equal. -/
theorem cas_loops_same_experiment (hcfg : cfg.WellFormed) :
    (∀ {evs : List (CasIncr.Action ι)} {s}, cfg.system.Run evs s → CasIncr.wins evs < 2 ^ 64 →
      ∃ evs' t, (system cfg.key).Run evs' t ∧ evs'.map Action.slot = evs.map rostamSlot) ∧
    (∀ {evs' : List (Action ι)} {t}, (system cfg.key).Run evs' t → wins evs' < 2 ^ 64 →
      ∃ evs s, cfg.system.Run evs s ∧ evs.map rostamSlot = evs'.map Action.slot) ∧
    ∀ {evs : List (CasIncr.Action ι)} {s evs' t}, cfg.system.Run evs s →
      (system cfg.key).Run evs' t → evs'.map Action.slot = evs.map rostamSlot →
      CasIncr.wins evs < 2 ^ 64 ∨ wins evs' < 2 ^ 64 →
      evs.map CasIncr.Action.won = evs'.map Action.won ∧
      (∀ i, rostamOutcome (s.incr i) = (t.incr i).outcome ∧
        rostamRoundTrips i evs = roundTrips i evs') ∧
      ∃ v, s.cells cfg.key = some (putInt64 v) ∧
        binsOf (t.store cfg.key) "c" = some (.int v) := by
  refine ⟨?_, ?_, ?_⟩
  · intro evs s hrun hw
    refine (lockstep hcfg).exists_run ?_ hrun hw
    exact ⟨{ store := _, incr := fun _ => .idle }, fun _ => rfl, [cfg.key], fun _ => none,
      by simp, rfl⟩
  · intro evs' t hrun hw
    refine (lockstep_back hcfg).exists_run ?_ hrun hw
    exact ⟨{ cells := fun _ => some (List.replicate 8 0), incr := fun _ => .idle },
      fun _ => rfl, _, rfl, rfl⟩
  · intro evs s evs' t hrun hrun' hsched hw
    have halike : Alike cfg evs s evs' t := by
      rcases hw with hw | hw
      · exact (lockstep hcfg).related hrun hrun' hsched hw
      · exact (lockstep_back hcfg).related hrun' hrun hsched.symm hw
    obtain ⟨hwon, g₀, hsim⟩ := halike
    refine ⟨hwon, fun i => ⟨(hsim.invocations i).outcome_eq, roundTrips_eq hsched i⟩, _,
      hsim.counter, ?_⟩
    obtain ⟨rec, hrec, hc, -⟩ := hsim.record
    exact Option.bind_eq_some_iff.mpr ⟨rec, hrec, hc⟩

/-- The schedule of `CasIncr.twoIncrements` on a record that is new. -/
def twoPuts : List (Action Bool) :=
  [.call false, .call true, .get false (.ok ⟨some (.int 0), 1⟩),
   .get true (.ok ⟨some (.int 0), 1⟩), .put false (.ok ()), .put true (.error .generation),
   .get true (.ok ⟨some (.int 1), 2⟩), .put true (.ok ())]

theorem cas_loops_same_experiment_two :
    ∃ s t, CasIncr.oneByteKey.system.Run CasIncr.twoIncrements s ∧
      (system CasIncr.oneByteKey.key).Run twoPuts t ∧
      CasIncr.twoIncrements.map CasIncr.Action.won = twoPuts.map Action.won ∧
      ∃ v, s.cells [7] = some (putInt64 v) ∧ binsOf (t.store [7]) "c" = some (.int v) := by
  have hreplay : (CasIncr.oneByteKey.system.replay
      { cells := fun _ => some (List.replicate 8 0), incr := fun _ => .idle }
      CasIncr.twoIncrements).map (fun _ => ()) = some () := by decide +kernel
  have hreplay' : ((system CasIncr.oneByteKey.key).replay
      { store := (setupOp .cas [[7]] fun _ => none).getD fun _ => none, incr := fun _ => .idle }
      twoPuts).map (fun _ => ()) = some () := by decide +kernel
  obtain ⟨s, hrun, -⟩ := System.run_of_replay hreplay ⟨fun _ => rfl, _, rfl, rfl⟩
  obtain ⟨t, hrun', -⟩ := System.run_of_replay hreplay'
    ⟨fun _ => rfl, [[7]], fun _ => none, by decide, rfl⟩
  obtain ⟨hwon, -, hcounter⟩ := (cas_loops_same_experiment ⟨rfl, by decide⟩).2.2 hrun hrun'
    (by decide) (Or.inl (by decide))
  exact ⟨s, t, hrun, hrun', hwon, hcounter⟩

end RostamBench.Netkv.CasGen
