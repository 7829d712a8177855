import RostamBench.Netkv.Aerospike
import RostamBench.Netkv.CasIncr
import RostamBench.Netkv.LoadGen
import RostamBench.Server.Dispatcher
import RostamBench.Server.RecordUpdate

/-!
The paired single-record workloads: what `doOp` leaves in Rostam and in Aerospike.

Both engines seed their keys and then run the same list of requests, drawn from
the same source. A mode has a logical value that each store keeps in its own shape
(`SameValue`): three counters in 24 bytes or in three bins, a byte string in the
value or in bin `v`, eight bytes in the value or in the blob `m`.

In modes `atomic` and `append` one request moves both values alike, and so does
any list of them. In mode `bitmask` the two operations differ: `shft` shifts a one
into its value, `BitLShiftOp` a zero into the blob. From the zero seed the blob
never changes and the value is odd from the first request on.
-/

namespace RostamBench.Netkv.PairedOps

open BigEndian Effects CellProg Server Aerospike

variable {σ : Type*}

/-! ### The Rostam side -/

/-- `wire.EncodeKeyArgs`, the builtins and the std key extractor, which come from
elsewhere. -/
structure Wire where
  encodeKeyArgs : Bytes → Bytes
  builtins : Registry
  std : KeyExtractor

/-- Keys of a length a `u16` can hold get the std prefix. -/
def Wire.WellFormed (x : Wire) : Prop :=
  ∀ key : Bytes, key.length < 2 ^ 16 → x.encodeKeyArgs key = bytesOf 2 key.length ++ key

/-- `setupOp` of `rostamEngine`. -/
def rostamSetupOp (mode : Mode) (keys : List Bytes) (cells : Bytes → Option Bytes) :
    Except CasIncr.SetupErr (Bytes → Option Bytes) :=
  (CasIncr.seed mode.flag).map fun v =>
    keys.foldl (fun cells key => Function.update cells key (some v)) cells

/-- The call of a request that is one custom op of the server. -/
def Wire.call (x : Wire) : Request → Option OpCall
  | .atomicUpdate key streak points =>
      some { name := "aru", args := x.encodeKeyArgs key ++ (putInt64 streak ++ putInt64 points) }
  | .append key suffix => some { name := "app", args := x.encodeKeyArgs key ++ suffix }
  | .shift key => some { name := "shft", args := x.encodeKeyArgs key }
  | .get _ | .put _ _ | .incr _ _ | .casIncr _ => none

/-- The server executes the handler of the op. -/
def serve (reg : Registry) (c : OpCall) (cells : Bytes → Option Bytes) :
    (Bytes → Option Bytes) × Response :=
  match reg c.name with
  | none => (cells, .error (.notRegistered c.name))
  | some e => TxContext.reliable.ops.run (e.handler c.args) cells

/-- The cache after such a request. -/
def Wire.exec (x : Wire) (req : Request) (cells : Bytes → Option Bytes) : Bytes → Option Bytes :=
  match x.call req with
  | none => cells
  | some c => (serve (benchRegistry x.builtins x.std) c cells).1

/-! ### Runs -/

/-- `doOp` on one key after the other. -/
def runOps {S : Type*} (exec : Request → S → S) (op : Op σ) : List Bytes → σ → S → S
  | [], _, s => s
  | key :: keys, rng, s => runOps exec op keys (op rng key).2 (exec (op rng key).1 s)

/-- The two stores hold the same logical value. -/
def SameValue (mode : Mode) (v : Option Bytes) (rec : Option Aerospike.Record) : Prop :=
  match mode with
  | .atomic => ∃ bs, v = some bs ∧ bs.length = 24 ∧
      binsOf rec "g" = some (.int (decodeRecord v).games) ∧
      binsOf rec "best" = some (.int (decodeRecord v).best) ∧
      binsOf rec "score" = some (.int (decodeRecord v).score)
  | .append => ∃ bs, v = some bs ∧ binsOf rec "v" = some (.str bs)
  | .bitmask => ∃ bs, v = some bs ∧ bs.length = 8 ∧ binsOf rec "m" = some (.blob bs)
  | .kv | .incr | .cas => True

/-! ### One request -/

variable {x : Wire} {key : Bytes} {cells : Bytes → Option Bytes} {store : Store}

theorem Wire.WellFormed.exec_atomicUpdate (hx : x.WellFormed) (hkey : key.length < 2 ^ 16)
    (streak points : Int64) :
    x.exec (.atomicUpdate key streak points) cells =
      Function.update cells key
        (some (encodeRecord ((decodeRecord (cells key)).fold streak points))) := by
  have hcall := callAru_eq hkey { streak := streak, points := points } cells
  rw [callAru, aruArgs, stdArgs, ← hx key hkey] at hcall
  simp only [Wire.exec, Wire.call, serve, benchRegistry, Registry.registerRoutable]
  simpa [Record.add] using congrArg Prod.fst hcall

theorem Wire.WellFormed.exec_append (hx : x.WellFormed) (hkey : key.length < 2 ^ 16)
    (suffix : Bytes) :
    x.exec (.append key suffix) cells =
      Function.update cells key (some ((cells key).getD [] ++ suffix)) := by
  have hrun := run_updateArgs "app" (fun suffix cur => .write (cur.getD [] ++ suffix) []) hkey
    (Nat.zero_le suffix.length) cells
  rw [stdArgs, ← hx key hkey] at hrun
  simp only [Wire.exec, Wire.call, serve, benchRegistry, Registry.registerRoutable]
  simpa [handleAppend, Update.apply] using congrArg Prod.fst hrun

theorem Wire.WellFormed.exec_shift (hx : x.WellFormed) (hkey : key.length < 2 ^ 16) :
    x.exec (.shift key) cells =
      Function.update cells key (some (putUint64 (decodeMask (cells key) <<< 1 ||| 1))) := by
  have hrun := run_updateArgs "shft"
    (fun _ cur => .write (putUint64 (decodeMask cur <<< 1 ||| 1)) []) hkey
    (Nat.zero_le ([] : Bytes).length) cells
  rw [stdArgs, List.append_nil, ← hx key hkey] at hrun
  simp only [Wire.exec, Wire.call, serve, benchRegistry, Registry.registerRoutable]
  simpa [handleShift, Update.apply] using congrArg Prod.fst hrun

/-- Two counters and a maximum, whichever store folds them. -/
theorem SameValue.atomicUpdate (hx : x.WellFormed) (hkey : key.length < 2 ^ 16)
    (streak points : Int64) (h : SameValue .atomic (cells key) (store key)) :
    SameValue .atomic (x.exec (.atomicUpdate key streak points) cells key)
      (Aerospike.exec (.atomicUpdate key streak points) store key) := by
  obtain ⟨bs, hv, hlen, hg, hbest, hscore⟩ := h
  rw [hx.exec_atomicUpdate hkey, Function.update_self]
  have hbins : applyAll (binsOf (store key))
      [.add "g" 1, .add "score" points, .expWriteMax "best" "best" streak] =
      some (setBin (setBin (setBin (binsOf (store key)) "g"
        (.int ((decodeRecord (cells key)).games + 1))) "score"
        (.int ((decodeRecord (cells key)).score + points))) "best"
        (.int (if (decodeRecord (cells key)).best < streak then streak
          else (decodeRecord (cells key)).best))) := by
    simp [applyAll, BinOp.apply, setBin, hg, hbest, hscore]
  refine ⟨_, rfl, length_encodeRecord _, ?_⟩
  rw [decodeRecord_encodeRecord, Aerospike.exec]
  simp only [operations]
  rw [binsOf_operate hbins]
  exact ⟨by simp [setBin, Record.fold], by simp [setBin, Record.fold],
    by simp [setBin, Record.fold]⟩

theorem SameValue.append (hx : x.WellFormed) (hkey : key.length < 2 ^ 16) (suffix : Bytes)
    (h : SameValue .append (cells key) (store key)) :
    SameValue .append (x.exec (.append key suffix) cells key)
      (Aerospike.exec (.append key suffix) store key) := by
  obtain ⟨bs, hv, hbin⟩ := h
  rw [hx.exec_append hkey, Function.update_self, hv]
  have hbins : applyAll (binsOf (store key)) [.append "v" suffix] =
      some (setBin (binsOf (store key)) "v" (.str (bs ++ suffix))) := by
    simp [applyAll, BinOp.apply, hbin]
  refine ⟨_, rfl, ?_⟩
  rw [Aerospike.exec]
  simp only [operations]
  rw [binsOf_operate hbins]
  simp [setBin]

/-! ### Bitmasks -/

/-- The blob is zero. -/
def ZeroBlob (rec : Option Aerospike.Record) : Prop :=
  binsOf rec "m" = some (.blob (List.replicate 8 0))

/-- The value has its lowest bit set. -/
def OddMask (v : Option Bytes) : Prop := ∃ u : UInt64, v = some (putUint64 (u ||| 1))

/-- A zero blob is shifted into itself. -/
theorem ZeroBlob.shift (h : ZeroBlob (store key)) :
    ZeroBlob (Aerospike.exec (.shift key) store key) := by
  have hshift : lshift (List.replicate 8 0) 0 64 1 = List.replicate 8 0 := by decide
  have hop : (BinOp.bitLShift "m" 0 64 1).apply (binsOf (store key)) =
      some (setBin (binsOf (store key)) "m" (.blob (List.replicate 8 0))) := by
    rw [BinOp.apply, h]
    simp only [hshift]
    rfl
  have hbins : applyAll (binsOf (store key)) [.bitLShift "m" 0 64 1] =
      some (setBin (binsOf (store key)) "m" (.blob (List.replicate 8 0))) := by
    rw [applyAll, hop]
    rfl
  rw [ZeroBlob, Aerospike.exec]
  simp only [operations]
  rw [binsOf_operate hbins]
  simp [setBin]

theorem oddMask_shift (hx : x.WellFormed) (hkey : key.length < 2 ^ 16) :
    OddMask (x.exec (.shift key) cells key) := by
  rw [hx.exec_shift hkey, Function.update_self]
  exact ⟨_, rfl⟩

/-- An odd mask is not a zero blob. -/
theorem OddMask.not_sameValue {v : Option Bytes} {rec : Option Aerospike.Record}
    (hodd : OddMask v) (hzero : ZeroBlob rec) : ¬ SameValue .bitmask v rec := by
  rintro ⟨bs, hv, -, hbin⟩
  obtain ⟨u, hu⟩ := hodd
  have hbs : bs = List.replicate 8 0 := by
    have heq := hbin.symm.trans hzero
    simpa using heq
  have hput : putUint64 (u ||| 1) = List.replicate 8 0 := by
    rw [← hbs]
    exact Option.some.inj (hu.symm.trans hv)
  have hget := getUint64_putUint64_append (u ||| 1) []
  rw [List.append_nil, hput] at hget
  have hone : (u ||| 1) = 0 := hget.symm.trans (by decide)
  simp at hone

/-! ### Seeding -/

theorem rostamSetupOp_seeds {mode : Mode} {keys : List Bytes} {cells₀ : Bytes → Option Bytes}
    {v : Bytes} (hseed : CasIncr.seed mode.flag = .ok v)
    (h : rostamSetupOp mode keys cells₀ = .ok cells) (hkey : key ∈ keys) : cells key = some v := by
  rw [rostamSetupOp, hseed] at h
  obtain rfl := Except.ok.inj h
  refine foldl_establishes (P := fun cells key => cells key = some v) ?_ ?_ hkey cells₀
  · intro s key
    exact Function.update_self _ _ _
  · intro s key key' h
    by_cases hne : key = key'
    · subst hne
      exact Function.update_self _ _ _
    · rw [Function.update_of_ne hne]
      exact h

/-! ### Runs of requests -/

/-- What every request of a run keeps, the run keeps. -/
theorem runOps_related {S T : Type*} {f : Request → S → S} {g : Request → T → T} {op : Op σ}
    {P : S → T → Prop} {calls : List Bytes}
    (hstep : ∀ key ∈ calls, ∀ rng s t, P s t → P (f (op rng key).1 s) (g (op rng key).1 t))
    (rng : σ) {s : S} {t : T} (h : P s t) :
    P (runOps f op calls rng s) (runOps g op calls rng t) := by
  induction calls generalizing rng s t with
  | nil => exact h
  | cons key calls ih =>
      exact ih (fun key' hkey' => hstep key' (List.mem_cons_of_mem _ hkey')) _
        (hstep key List.mem_cons_self rng s t h)

theorem runOps_keeps {S : Type*} {f : Request → S → S} {op : Op σ} {P : S → Prop}
    {calls : List Bytes} (hstep : ∀ key ∈ calls, ∀ rng s, P s → P (f (op rng key).1 s)) (rng : σ)
    {s : S} (h : P s) : P (runOps f op calls rng s) :=
  runOps_related (g := fun _ => id) (P := fun s (_ : Unit) => P s)
    (fun key hkey rng s _ => hstep key hkey rng s) rng (t := ()) h

/-- The keys agree one by one, so a request on one of them is checked on that one
only. -/
theorem runOps_sameValue {mode : Mode} {op : Op σ} {keys calls : List Bytes}
    (hcalls : calls ⊆ keys)
    (hcells : ∀ key ∈ keys, ∀ rng cells key', key' ≠ key →
      x.exec (op rng key).1 cells key' = cells key')
    (hstore : ∀ key rng store key', key' ≠ key →
      Aerospike.exec (op rng key).1 store key' = store key')
    (hsame : ∀ key ∈ keys, ∀ rng cells store, SameValue mode (cells key) (store key) →
      SameValue mode (x.exec (op rng key).1 cells key) (Aerospike.exec (op rng key).1 store key))
    (rng : σ) (h : ∀ key ∈ keys, SameValue mode (cells key) (store key)) :
    ∀ key ∈ keys, SameValue mode (runOps x.exec op calls rng cells key)
      (runOps Aerospike.exec op calls rng store key) := by
  refine runOps_related (P := fun (cells : Bytes → Option Bytes) (store : Store) =>
    ∀ key ∈ keys, SameValue mode (cells key) (store key)) ?_ rng h
  intro key hkey rng cells store hrel key' hkey'
  by_cases hne : key' = key
  · subst hne
    exact hsame key' hkey' rng cells store (hrel key' hkey')
  · rw [hcells key (hcalls hkey) rng cells key' hne, hstore key rng store key' hne]
    exact hrel key' hkey'

/-- The operation of mode `bitmask`. -/
def shiftOp : Op σ := fun rng key => (.shift key, rng)

/-- Every key that was shifted holds an odd value. -/
theorem runOps_oddMask (hx : x.WellFormed) {calls : List Bytes}
    (hcalls : ∀ key ∈ calls, key.length < 2 ^ 16) (hkey : key ∈ calls) (rng : σ)
    (cells : Bytes → Option Bytes) : OddMask (runOps x.exec shiftOp calls rng cells key) := by
  have hstep {cells : Bytes → Option Bytes} {key' : Bytes} (hkey' : key'.length < 2 ^ 16)
      (h : OddMask (cells key)) : OddMask (x.exec (.shift key') cells key) := by
    by_cases hne : key = key'
    · subst hne
      exact oddMask_shift hx hkey'
    · rw [hx.exec_shift hkey', Function.update_of_ne hne]
      exact h
  induction calls generalizing cells with
  | nil => simp at hkey
  | cons key' calls ih =>
      have hrest : ∀ key ∈ calls, key.length < 2 ^ 16 :=
        fun k hk => hcalls k (List.mem_cons_of_mem _ hk)
      rcases List.mem_cons.mp hkey with rfl | hkey
      · -- Its first shift makes it odd, and no later one changes that.
        exact runOps_keeps (P := fun cells : Bytes → Option Bytes => OddMask (cells key))
          (fun key' hkey' _ _ => hstep (hrest key' hkey')) rng
          (oddMask_shift hx (hcalls key List.mem_cons_self))
      · exact ih hrest hkey _

/-- The blobs stay zero. -/
theorem runOps_zeroBlob (calls : List Bytes) (rng : σ) (h : ZeroBlob (store key)) :
    ZeroBlob (runOps Aerospike.exec shiftOp calls rng store key) := by
  refine runOps_keeps (P := fun store : Store => ZeroBlob (store key)) ?_ rng h
  intro key' _ rng store h
  by_cases hne : key = key'
  · subst hne
    exact h.shift
  · have hframe : Aerospike.exec (.shift key') store key = store key := operate_of_ne _ hne
    rw [shiftOp, hframe]
    exact h

/-! ### The three modes -/

section Modes

variable {R : Rand σ} {keys calls : List Bytes} {opR opA : Op σ}
  {cells₀ : Bytes → Option Bytes} {store₀ : Store}
  (hx : x.WellFormed) (hkeys : ∀ key ∈ keys, key.length < 2 ^ 16) (hcalls : calls ⊆ keys)

include hx hkeys hcalls

theorem atomic_sameValue (hopR : rostamDoOp R .atomic = some opR)
    (hopA : aerospikeDoOp R .atomic = some opA)
    (hcells : rostamSetupOp .atomic keys cells₀ = .ok cells)
    (hstore : setupOp .atomic keys store₀ = some store) (rng : σ) :
    ∀ key ∈ keys, SameValue .atomic (runOps x.exec opR calls rng cells key)
      (runOps Aerospike.exec opA calls rng store key) := by
  obtain rfl := Option.some.inj hopR
  obtain rfl := Option.some.inj hopA
  refine runOps_sameValue hcalls ?_ ?_ ?_ rng ?_
  · intro key hkey rng cells key' hne
    simp only [hx.exec_atomicUpdate (hkeys key hkey), Function.update_of_ne hne]
  · intro key rng store key' hne
    exact operate_of_ne _ hne
  · intro key hkey rng cells store h
    exact h.atomicUpdate hx (hkeys key hkey) _ _
  · intro key hkey
    have hv : cells key = some (List.replicate 24 0) := rostamSetupOp_seeds rfl hcells hkey
    rw [hv]
    refine ⟨_, rfl, rfl, ?_, ?_, ?_⟩
    · exact setupOp_seeds rfl (fun old => by simp [writeBins, setBin]; decide) hstore hkey
    · exact setupOp_seeds rfl (fun old => by simp [writeBins, setBin]; decide) hstore hkey
    · exact setupOp_seeds rfl (fun old => by simp [writeBins, setBin]; decide) hstore hkey

theorem append_sameValue (hopR : rostamDoOp R .append = some opR)
    (hopA : aerospikeDoOp R .append = some opA)
    (hcells : rostamSetupOp .append keys cells₀ = .ok cells)
    (hstore : setupOp .append keys store₀ = some store) (rng : σ) :
    ∀ key ∈ keys, SameValue .append (runOps x.exec opR calls rng cells key)
      (runOps Aerospike.exec opA calls rng store key) := by
  obtain rfl := Option.some.inj hopR
  obtain rfl := Option.some.inj hopA
  refine runOps_sameValue hcalls ?_ ?_ ?_ rng ?_
  · intro key hkey rng cells key' hne
    simp only [hx.exec_append (hkeys key hkey), Function.update_of_ne hne]
  · intro key rng store key' hne
    exact operate_of_ne _ hne
  · intro key hkey rng cells store h
    exact h.append hx (hkeys key hkey) _
  · intro key hkey
    have hv : cells key = some [] := rostamSetupOp_seeds rfl hcells hkey
    rw [hv]
    exact ⟨_, rfl, setupOp_seeds rfl (fun old => by simp [writeBins, setBin]) hstore hkey⟩

theorem bitmask_sameValue_iff (hopR : rostamDoOp R .bitmask = some opR)
    (hopA : aerospikeDoOp R .bitmask = some opA)
    (hcells : rostamSetupOp .bitmask keys cells₀ = .ok cells)
    (hstore : setupOp .bitmask keys store₀ = some store) (rng : σ) :
    (∀ key ∈ keys, SameValue .bitmask (runOps x.exec opR calls rng cells key)
      (runOps Aerospike.exec opA calls rng store key)) ↔ calls = [] := by
  obtain rfl := Option.some.inj hopR
  obtain rfl := Option.some.inj hopA
  have hzero {key : Bytes} (hkey : key ∈ keys) : ZeroBlob (store key) :=
    setupOp_seeds rfl (fun old => by simp [writeBins, setBin]) hstore hkey
  constructor
  · intro hsame
    by_contra hne
    obtain ⟨key, hkey⟩ := List.exists_mem_of_ne_nil calls hne
    refine OddMask.not_sameValue ?_ ?_ (hsame key (hcalls hkey))
    · exact runOps_oddMask hx (fun k hk => hkeys k (hcalls hk)) hkey rng cells
    · exact runOps_zeroBlob calls rng (hzero (hcalls hkey))
  · rintro rfl key hkey
    exact ⟨_, rostamSetupOp_seeds rfl hcells hkey, rfl, hzero hkey⟩

end Modes

/-- From freshly seeded keys, any list of requests leaves the two stores with the
same logical values if and only if the mode is not `bitmask` or there is no
request. -/
theorem paired_ops_same_value_iff (R : Rand σ) (hx : x.WellFormed) {mode : Mode}
    (hmode : mode ∈ [Mode.atomic, .append, .bitmask]) {keys : List Bytes}
    (hkeys : ∀ key ∈ keys, key.length < 2 ^ 16) {opR opA : Op σ}
    (hopR : rostamDoOp R mode = some opR) (hopA : aerospikeDoOp R mode = some opA)
    {cells₀ cells : Bytes → Option Bytes} (hcells : rostamSetupOp mode keys cells₀ = .ok cells)
    {store₀ store : Store} (hstore : setupOp mode keys store₀ = some store)
    {calls : List Bytes} (hcalls : calls ⊆ keys) (rng : σ) :
    (∀ key ∈ keys, SameValue mode (runOps x.exec opR calls rng cells key)
      (runOps Aerospike.exec opA calls rng store key)) ↔ (mode = .bitmask → calls = []) := by
  have hcases : mode = .atomic ∨ mode = .append ∨ mode = .bitmask := by simpa using hmode
  rcases hcases with rfl | rfl | rfl
  · exact iff_of_true (atomic_sameValue hx hkeys hcalls hopR hopA hcells hstore rng) (by simp)
  · exact iff_of_true (append_sameValue hx hkeys hcalls hopR hopA hcells hstore rng) (by simp)
  · rw [bitmask_sameValue_iff hx hkeys hcalls hopR hopA hcells hstore rng]
    exact ⟨fun h _ => h, fun h => h rfl⟩

/-- The std wire format with no builtin. -/
def stdWire : Wire where
  encodeKeyArgs key := bytesOf 2 key.length ++ key
  builtins _ := none
  std := stdPrefix

theorem stdWire_wellFormed : stdWire.WellFormed := fun _ _ => rfl

/-- Two keys, one of them updated twice. -/
theorem paired_ops_same_value_iff_two_keys :
    ∃ opR opA cells store, rostamDoOp wordRand .atomic = some opR ∧
      aerospikeDoOp wordRand .atomic = some opA ∧
      rostamSetupOp .atomic [[7], [8]] (fun _ => none) = .ok cells ∧
      setupOp .atomic [[7], [8]] (fun _ => none) = some store ∧
      ((∀ key ∈ [[7], [8]], SameValue .atomic
          (runOps stdWire.exec opR [[7], [8], [7]] 1 cells key)
          (runOps Aerospike.exec opA [[7], [8], [7]] 1 store key)) ↔
        (Mode.atomic = .bitmask → [[7], [8], [7]] = ([] : List Bytes))) :=
  ⟨_, _, _, _, rfl, rfl, rfl, rfl,
    paired_ops_same_value_iff wordRand stdWire_wellFormed (by decide) (by decide) rfl rfl rfl rfl
      (by decide) 1⟩

/-- One shift of one seeded key: Rostam holds one, Aerospike zero. -/
theorem shift_not_same_value :
    ∃ opR opA cells store, rostamDoOp wordRand .bitmask = some opR ∧
      aerospikeDoOp wordRand .bitmask = some opA ∧
      rostamSetupOp .bitmask [[7]] (fun _ => none) = .ok cells ∧
      setupOp .bitmask [[7]] (fun _ => none) = some store ∧
      runOps stdWire.exec opR [[7]] 1 cells [7] = some [0, 0, 0, 0, 0, 0, 0, 1] ∧
      binsOf (runOps Aerospike.exec opA [[7]] 1 store [7]) "m" =
        some (.blob [0, 0, 0, 0, 0, 0, 0, 0]) ∧
      ¬ SameValue .bitmask (runOps stdWire.exec opR [[7]] 1 cells [7])
        (runOps Aerospike.exec opA [[7]] 1 store [7]) := by
  refine ⟨_, _, _, _, rfl, rfl, rfl, rfl, by decide, by decide, ?_⟩
  exact OddMask.not_sameValue ⟨0, by decide⟩ (show _ = _ by decide)

end RostamBench.Netkv.PairedOps
