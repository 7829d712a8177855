import RostamBench.Lib.Locking
import RostamBench.Server.Handlers
import Mathlib.Data.List.FinRange
import Mathlib.Data.Fin.Basic
import Mathlib.Data.Fintype.EquivFin

/-!
`benchDispatcher.Call`: look the operation up, take the locks its kind asks for,
run its handler, release.

A read-write operation with a routing key locks the shard of that key only; any
other read-write operation locks all shards, one by one in index order; a read
operation locks nothing. A call is thus a job of `Locking` (`call`), and the two
results about concurrent calls are instances of the library's: read-write calls
are atomic (`calls_linearizable`), which needs every handler to touch only keys
of the shards it has locked, and calls neither deadlock nor leak a lock
(`no_deadlock_no_leaked_lock`), which needs every lock list to be increasing.

The cache, the builtins and the std key extractor belong to the engine and are
parameters here.
-/

namespace RostamBench.Server

open BigEndian Effects CellProg Transition Locking

inductive OpKind
  | read
  | readWrite
  deriving DecidableEq

/-- `ops.KeyExtractor`: the key a call is routed by, if there is one. -/
abbrev KeyExtractor := Bytes → Option Bytes

/-- What `Lookup` returns for a registered name, and `CrossShard` of it. -/
structure OpEntry where
  handler : Handler
  kind : OpKind
  keyOf : Option KeyExtractor
  crossShard : Bool

abbrev Registry := String → Option OpEntry

/-- `RegisterRoutable(name, OpReadWrite, h, ke)`. -/
def Registry.registerRoutable (reg : Registry) (name : String) (h : Handler)
    (ke : KeyExtractor) : Registry :=
  Function.update reg name
    (some { handler := h, kind := .readWrite, keyOf := some ke, crossShard := false })

/-- The registry `main` builds over the builtins. -/
def benchRegistry (builtins : Registry) (std : KeyExtractor) : Registry :=
  (((builtins.registerRoutable "aru" handleAtomicRecordUpdate std).registerRoutable
    "casw" handleCASWrite std).registerRoutable
    "app" handleAppend std).registerRoutable "shft" handleShift std

structure BenchDispatcher where
  reg : Registry
  tx : TxContext
  /-- The number of shards, and so of the mutexes in `opMu`. -/
  numShards : ℕ
  shardIndex : Bytes → Fin numShards

/-- The name and the arguments of a call. -/
structure OpCall where
  name : String
  args : Bytes
  deriving DecidableEq

/-- The key whose shard a read-write call locks; `none` is the barrier. -/
def OpEntry.routingKey (e : OpEntry) (args : Bytes) : Option Bytes :=
  match e.keyOf with
  | some ke => if e.crossShard then none else ke args
  | none => none

namespace BenchDispatcher

variable (d : BenchDispatcher)

/-- The mutexes a call of the entry locks, in order. -/
def lockPlan (e : OpEntry) (args : Bytes) : List (Fin d.numShards) :=
  match e.kind with
  | .read => []
  | .readWrite =>
      match e.routingKey args with
      | some key => [d.shardIndex key]
      | none => List.finRange d.numShards

/-- `Call(name, args)`. -/
def call (c : OpCall) : Job (Fin d.numShards) TxOp.Result Response :=
  match d.reg c.name with
  | none => { plan := [], prog := .ret (.error (.notRegistered c.name)) }
  | some e => { plan := d.lockPlan e c.args, prog := e.handler c.args }

/-- A call runs the handler registered under its name. -/
theorem call_of_reg {c : OpCall} {e : OpEntry} (he : d.reg c.name = some e) :
    d.call c = { plan := d.lockPlan e c.args, prog := e.handler c.args } := by
  rw [call, he]

variable {ι : Type*} [DecidableEq ι]

/-- Concurrent calls, named by `ι`, on a cache with contents `c₀`. -/
def system (calls : ι → OpCall) (c₀ : Bytes → Option Bytes) :
    System (State ι Bytes (Option Bytes) (Fin d.numShards) TxOp.Result Response)
      (Action ι) :=
  Locking.system (fun i => d.call (calls i)) d.tx.ops c₀

instance (calls : ι → OpCall) (c₀ : Bytes → Option Bytes)
    (s : State ι Bytes (Option Bytes) (Fin d.numShards) TxOp.Result Response)
    (a : Action ι) : Decidable ((d.system calls c₀).enabled s a) :=
  inferInstanceAs (Decidable (s.Enabled a))

/-- The cache and the responses when the calls of a list run one at a time. -/
def runSerially (calls : ι → OpCall) (c₀ : Bytes → Option Bytes) (order : List ι) :
    (Bytes → Option Bytes) × List (ι × Response) :=
  serial (fun i => d.call (calls i)) d.tx.ops c₀ order

omit [DecidableEq ι] in
/-- Run serially, a call is its handler, run on what the calls before it have left. -/
theorem runSerially_concat {calls : ι → OpCall} {i : ι} {e : OpEntry}
    (he : d.reg (calls i).name = some e) (c₀ : Bytes → Option Bytes) (order : List ι) :
    d.runSerially calls c₀ (order ++ [i]) =
      let (cells, responses) := d.runSerially calls c₀ order
      let (cells, r) := d.tx.ops.run (e.handler (calls i).args) cells
      (cells, responses ++ [(i, r)]) := by
  rw [runSerially, serial_append_singleton, serialStep, d.call_of_reg he]
  rfl

/-! ### The locks of a call -/

theorem lockPlan_sorted (e : OpEntry) (args : Bytes) :
    (d.lockPlan e args).Pairwise (· < ·) := by
  unfold lockPlan
  split
  · exact List.Pairwise.nil
  · split
    · exact List.pairwise_singleton _ _
    · exact List.pairwise_lt_finRange d.numShards

theorem plan_sorted (c : OpCall) : (d.call c).plan.Pairwise (· < ·) := by
  unfold call
  split
  · exact List.Pairwise.nil
  · exact d.lockPlan_sorted _ _

/-! ### Atomicity -/

/-- The std key extractor returns `args[2:2+keyLen]` when the arguments hold
it. -/
def StdExtractor (std : KeyExtractor) : Prop :=
  ∀ args key, stdPrefix args = some key → std args = some key

/-- A read-write call of a bench operation, or one that takes the barrier. -/
def ReadWriteCall (c : OpCall) : Prop :=
  c.name ∈ ["aru", "casw", "app", "shft"] ∨
    ∃ e, d.reg c.name = some e ∧ e.kind = .readWrite ∧ e.routingKey c.args = none

/-- The entries `main` adds are all routed by the std prefix and update the key
they are routed by. -/
theorem benchRegistry_apply (builtins : Registry) (std : KeyExtractor) {name : String}
    (hname : name ∈ ["aru", "casw", "app", "shft"]) :
    ∃ op need f, benchRegistry builtins std name =
      some { handler := updateArgs op need f, kind := .readWrite, keyOf := some std,
             crossShard := false } := by
  have hcases : name = "aru" ∨ name = "casw" ∨ name = "app" ∨ name = "shft" := by
    simpa using hname
  rcases hcases with rfl | rfl | rfl | rfl
  · exact ⟨_, _, _, by simp [benchRegistry, Registry.registerRoutable]; rfl⟩
  · exact ⟨_, _, _, by simp [benchRegistry, Registry.registerRoutable]; rfl⟩
  · exact ⟨_, _, _, by simp [benchRegistry, Registry.registerRoutable]; rfl⟩
  · exact ⟨_, _, _, by simp [benchRegistry, Registry.registerRoutable]; rfl⟩

/-- Behind the barrier a handler may touch anything. -/
theorem barrier_touches {e : OpEntry} {args : Bytes} (hkind : e.kind = .readWrite)
    (hkey : e.routingKey args = none) (p : OpProg) :
    p.Uses fun o => d.shardIndex o.key ∈ d.lockPlan e args := by
  have hall (k : Bytes) : d.shardIndex k ∈ d.lockPlan e args := by
    simp [lockPlan, hkind, hkey]
  induction p with
  | ret r => trivial
  | op o next ih => exact ⟨hall o.key, ih⟩

/-- A read-write call holds the mutex of the shard of every key it touches. -/
theorem call_touches {builtins : Registry} {std : KeyExtractor} (hstd : StdExtractor std)
    (hreg : d.reg = benchRegistry builtins std) {c : OpCall} (hc : d.ReadWriteCall c) :
    (d.call c).prog.Uses fun o => d.shardIndex o.key ∈ (d.call c).plan := by
  rcases hc with hname | ⟨e, he, hkind, hkey⟩
  · obtain ⟨op, need, f, he⟩ := benchRegistry_apply builtins std hname
    rw [← hreg] at he
    rw [d.call_of_reg he]
    -- The handler splits its arguments at the key the extractor routes by.
    refine (updateArgs_touches op need f c.args).mono fun o ho => ?_
    simp [lockPlan, OpEntry.routingKey, hstd c.args o.key ho]
  · rw [d.call_of_reg he]
    exact d.barrier_touches hkind hkey _

/-- Concurrent read-write calls are atomic. Whatever the interleaving of their
lock, `tx.Get`, `tx.Put` and unlock steps, once no call is under way there is an
order of the calls that returned such that running their handlers one at a time
in this order leaves the cache as it is and gives every call its response; a call
that had returned before another started comes first. -/
theorem calls_linearizable {builtins : Registry} {std : KeyExtractor} (hstd : StdExtractor std)
    (hreg : d.reg = benchRegistry builtins std) {calls : ι → OpCall}
    (hcalls : ∀ i, d.ReadWriteCall (calls i)) {c₀ : Bytes → Option Bytes}
    {evs : List (Action ι)}
    {s : State ι Bytes (Option Bytes) (Fin d.numShards) TxOp.Result Response}
    (hrun : (d.system calls c₀).Run evs s) (hdone : ∀ i, ¬ (s.pc i).Active) :
    ∃ order : List ι, order.Nodup ∧ (∀ i, i ∈ order ↔ ∃ r, s.pc i = .returned r) ∧
      (d.runSerially calls c₀ order).1 = s.cells ∧
      (∀ i r, s.pc i = .returned r → (i, r) ∈ (d.runSerially calls c₀ order).2) ∧
      ∀ i j, Before (.ret i) (.call j) evs → Before i j order := by
  have hsorted (i : ι) : (d.call (calls i)).plan.Pairwise (· < ·) := d.plan_sorted (calls i)
  have hcovered : Covered (fun i => d.call (calls i)) d.tx.ops d.shardIndex :=
    fun i => d.call_touches hstd hreg (hcalls i)
  exact serializable (nodup_of_sorted hsorted) hcovered hrun hdone

/-- A server with two shards and one more operation, `reset`, which has no
routing key. -/
def twoShards : BenchDispatcher where
  reg := benchRegistry
    (fun name =>
      if name = "reset" then
        some { handler := fun _ => .op (.put [7] []) fun _ => .ret (.ok []),
               kind := .readWrite, keyOf := none, crossShard := false }
      else none)
    stdPrefix
  tx := .reliable
  numShards := 2
  shardIndex key := if key.length = 0 then 0 else 1

/-- An `app` of `5` to key `7` and a `reset`. -/
def appendAndReset : Bool → OpCall
  | false => { name := "app", args := [0, 1, 7, 5] }
  | true => { name := "reset", args := [] }

/-- The reset holds the first mutex when the append takes the second one, and
has to wait for it. -/
def appendThenReset : List (Action Bool) :=
  [.call true, .lock true, .call false, .lock false, .enter false, .act false, .act false,
   .finish false, .unlock false, .ret false, .lock true, .enter true, .act true, .finish true,
   .unlock true, .unlock true, .ret true]

theorem calls_linearizable_append_reset :
    ∃ s, (twoShards.system appendAndReset fun _ => none).Run appendThenReset s ∧
      (s.pc false, s.pc true) = (.returned (.ok []), .returned (.ok [])) ∧
      ∃ order : List Bool, order.Nodup ∧
        (twoShards.runSerially appendAndReset (fun _ => none) order).1 = s.cells := by
  have hreplay : ((twoShards.system appendAndReset fun _ => none).replay (.initial fun _ => none)
      appendThenReset).map (fun s => (s.pc false, s.pc true)) =
      some (.returned (.ok []), .returned (.ok [])) := rfl
  obtain ⟨s, hrun, hpc⟩ := System.run_of_replay hreplay rfl
  obtain ⟨hfalse, htrue⟩ := Prod.mk.inj hpc
  refine ⟨s, hrun, hpc, ?_⟩
  have hcalls : ∀ i, twoShards.ReadWriteCall (appendAndReset i) := by
    rintro (_ | _)
    · exact Or.inl (by simp [appendAndReset])
    · exact Or.inr ⟨_, rfl, rfl, rfl⟩
  have hstd : StdExtractor stdPrefix := fun _ _ h => h
  obtain ⟨order, hnodup, _, hcells, _⟩ := twoShards.calls_linearizable hstd rfl hcalls hrun
    (by rintro (_ | _) <;> simp_all [Pc.Active])
  exact ⟨order, hnodup, hcells⟩

/-! ### No deadlock, no leaked lock -/

/-- While some call has not returned, one of those calls can move: a call that
has not started always can, and among those under way one is not waiting. Once
no call is under way every mutex is unlocked. -/
theorem no_deadlock_no_leaked_lock (calls : ι → OpCall) (c₀ : Bytes → Option Bytes)
    {s : State ι Bytes (Option Bytes) (Fin d.numShards) TxOp.Result Response}
    (hs : (d.system calls c₀).Reachable s) :
    (∀ i, s.pc i = .idle → s.CanStep i) ∧
      ((∃ i, (s.pc i).Active) → ∃ j, (s.pc j).Active ∧ s.CanStep j) ∧
      ((∀ i, ¬ (s.pc i).Active) → ∀ m, s.owner m = none) := by
  have hsorted (i : ι) : (d.call (calls i)).plan.Pairwise (· < ·) := d.plan_sorted (calls i)
  refine ⟨fun i hi => ⟨.call i, rfl, hi⟩, ?_, ?_⟩
  · rintro ⟨i, hi⟩
    exact exists_canStep hsorted hs hi
  · intro hdone m
    exact owner_none_of_done (nodup_of_sorted hsorted) hs hdone m

/-- In the state where the reset waits for the append, the append can move. -/
theorem no_deadlock_no_leaked_lock_append_reset :
    ∃ s, (twoShards.system appendAndReset fun _ => none).Reachable s ∧
      s.pc true = .locking [(1 : Fin 2)] ∧ s.owner (1 : Fin 2) = some false ∧
      ∃ j, (s.pc j).Active ∧ s.CanStep j := by
  have hreplay : ((twoShards.system appendAndReset fun _ => none).replay (.initial fun _ => none)
      (appendThenReset.take 4)).map (fun s => (s.pc true, s.owner (1 : Fin 2))) =
      some (.locking [(1 : Fin 2)], some false) := rfl
  obtain ⟨s, hrun, hs⟩ := System.run_of_replay hreplay rfl
  obtain ⟨hpc, howner⟩ := Prod.mk.inj hs
  have h := twoShards.no_deadlock_no_leaked_lock appendAndReset (fun _ => none) hrun.reachable
  exact ⟨s, hrun.reachable, hpc, howner, h.2.1 ⟨true, by rw [hpc]; trivial⟩⟩

end BenchDispatcher

end RostamBench.Server
