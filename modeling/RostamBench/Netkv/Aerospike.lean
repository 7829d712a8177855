import RostamBench.Netkv.Workload
import Mathlib.Logic.Function.Basic

/-!
The Aerospike side of the paired workloads: records of bins, the operations the
engine sends, and how it seeds a key.

A record is a map from bin names to values with a generation, which counts its
writes. `operate` applies a list of operations to one record, all of them or, when
one does not fit the value it finds, none; a conditional `put` writes only under
the generation it expects. Bits are numbered from the most significant bit of the
first byte, and `bitLShift` moves a field of them to the left and fills it up with
zeros.
-/

namespace RostamBench.Netkv.Aerospike

open BigEndian

inductive BinValue
  | int (n : Int64)
  | str (s : Bytes)
  | blob (b : Bytes)
  deriving DecidableEq, Repr

abbrev Bins := String → Option BinValue

structure Record where
  bins : Bins
  /-- The number of writes so far. -/
  generation : ℕ

/-- A namespace and set; a key is the digest of the user key. -/
abbrev Store := Bytes → Option Record

/-! ### Bits of a blob -/

/-- The bits of a byte, most significant first. -/
def bitsOfByte (b : UInt8) : List Bool := (List.range 8).map fun i => b.toNat.testBit (7 - i)

def bitsOf (b : Bytes) : List Bool := b.flatMap bitsOfByte

/-- The number of a bit string, most significant bit first. -/
def natOfBits (bits : List Bool) : ℕ := bits.foldl (fun n b => 2 * n + b.toNat) 0

/-- The bytes of a bit string, eight bits at a time. -/
def bytesOfBits : ℕ → List Bool → Bytes
  | 0, _ => []
  | n + 1, bits => UInt8.ofNat (natOfBits (bits.take 8)) :: bytesOfBits n (bits.drop 8)

/-- The bits from `offset` on, `size` of them, moved `shift` to the left. -/
def lshift (b : Bytes) (offset size shift : ℕ) : Bytes :=
  let bits := bitsOf b
  let field := (bits.drop offset).take size
  let moved := (field.drop shift ++ List.replicate shift false).take size
  bytesOfBits b.length (bits.take offset ++ moved ++ bits.drop (offset + size))

/-! ### Operations -/

inductive BinOp
  /-- `AddOp(NewBin(bin, n))`. -/
  | add (bin : String) (n : Int64)
  /-- `AppendOp(NewBin(bin, s))`. -/
  | append (bin : String) (s : Bytes)
  /-- `ExpWriteOp(bin, ExpMax(ExpIntBin(of), ExpIntVal(n)))`. -/
  | expWriteMax (bin of : String) (n : Int64)
  /-- `BitLShiftOp(bin, offset, size, shift)`. -/
  | bitLShift (bin : String) (offset size shift : ℕ)

def setBin (bins : Bins) (bin : String) (v : BinValue) : Bins := Function.update bins bin (some v)

/-- One operation; `none` is an error. An absent bin counts as zero or empty where
the operation may create it. -/
def BinOp.apply (bins : Bins) : BinOp → Option Bins
  | .add bin n =>
      match bins bin with
      | some (.int m) => some (setBin bins bin (.int (m + n)))
      | none => some (setBin bins bin (.int n))
      | some (.str _) | some (.blob _) => none
  | .append bin s =>
      match bins bin with
      | some (.str t) => some (setBin bins bin (.str (t ++ s)))
      | none => some (setBin bins bin (.str s))
      | some (.int _) | some (.blob _) => none
  | .expWriteMax bin of n =>
      match bins of with
      | some (.int m) => some (setBin bins bin (.int (if m < n then n else m)))
      | none | some (.str _) | some (.blob _) => none
  | .bitLShift bin offset size shift =>
      match bins bin with
      | some (.blob b) =>
          if offset + size ≤ 8 * b.length then
            some (setBin bins bin (.blob (lshift b offset size shift)))
          else none
      | none | some (.int _) | some (.str _) => none

/-- All the operations, in order. -/
def applyAll (bins : Bins) : List BinOp → Option Bins
  | [] => some bins
  | op :: ops => (op.apply bins).bind fun bins => applyAll bins ops

/-- The bins and the generation of a record that may be absent. -/
def binsOf (rec : Option Record) : Bins := fun bin => rec.bind fun r => r.bins bin

def generationOf (rec : Option Record) : ℕ := (rec.map Record.generation).getD 0

/-- `Operate(policy, key, ops...)`; an error changes nothing. -/
def operate (store : Store) (key : Bytes) (ops : List BinOp) : Store :=
  match applyAll (binsOf (store key)) ops with
  | none => store
  | some bins =>
      Function.update store key
        (some { bins := bins, generation := generationOf (store key) + 1 })

/-- Write the bins of a bin map into the record. -/
def writeBins (bins : Bins) : List (String × BinValue) → Bins
  | [] => bins
  | (bin, v) :: rest => writeBins (setBin bins bin v) rest

/-- `Put(policy, key, bins)`. -/
def put (store : Store) (key : Bytes) (bins : List (String × BinValue)) : Store :=
  Function.update store key
    (some { bins := writeBins (binsOf (store key)) bins
            generation := generationOf (store key) + 1 })

/-- `Put` under `EXPECT_GEN_EQUAL`; `none` is `GENERATION_ERROR`. -/
def putIfGeneration (store : Store) (key : Bytes) (expected : ℕ)
    (bins : List (String × BinValue)) : Option Store :=
  if generationOf (store key) = expected then some (put store key bins) else none

/-! ### The engine -/

/-- The bins `setupOp` seeds every key with; `none` is its error for an unsupported
mode. -/
def seedBins : Mode → Option (List (String × BinValue))
  | .atomic => some [("g", .int 0), ("best", .int 0), ("score", .int 0)]
  | .incr | .cas => some [("c", .int 0)]
  | .append => some [("v", .str [])]
  | .bitmask => some [("m", .blob (List.replicate 8 0))]
  | .kv => none

/-- `setupOp`. -/
def setupOp (mode : Mode) (keys : List Bytes) (store : Store) : Option Store :=
  (seedBins mode).map fun bins => keys.foldl (fun store key => put store key bins) store

/-- The operations of a request that is one `Operate`. -/
def operations : Request → Option (Bytes × List BinOp)
  | .atomicUpdate key streak points =>
      some (key, [.add "g" 1, .add "score" points, .expWriteMax "best" "best" streak])
  | .incr key delta => some (key, [.add "c" delta])
  | .append key suffix => some (key, [.append "v" suffix])
  | .shift key => some (key, [.bitLShift "m" 0 64 1])
  | .get _ | .put _ _ | .casIncr _ => none

/-- The store after such a request. -/
def exec (req : Request) (store : Store) : Store :=
  match operations req with
  | some (key, ops) => operate store key ops
  | none => store

/-! ### What the calls do to a record -/

variable {store : Store} {key : Bytes}

theorem operate_of_ne (ops : List BinOp) {key' : Bytes} (hne : key' ≠ key) :
    operate store key ops key' = store key' := by
  cases h : applyAll (binsOf (store key)) ops with
  | none => simp [operate, h]
  | some bins => simp [operate, h, hne]

/-- The bins of the record a list of operations has been applied to. -/
theorem binsOf_operate {ops : List BinOp} {bins : Bins}
    (h : applyAll (binsOf (store key)) ops = some bins) :
    binsOf (operate store key ops key) = bins := by
  funext bin
  simp [operate, h, binsOf]

theorem binsOf_put (bins : List (String × BinValue)) :
    binsOf (put store key bins key) = writeBins (binsOf (store key)) bins := by
  funext bin
  simp [put, binsOf]

/-- Every bin of the seed is there, whatever the record held before. -/
theorem setupOp_seeds {mode : Mode} {keys : List Bytes} {store₀ : Store}
    {bins : List (String × BinValue)} {bin : String} {v : BinValue}
    (hseed : seedBins mode = some bins) (hbin : ∀ old, writeBins old bins bin = some v)
    (h : setupOp mode keys store₀ = some store) (hkey : key ∈ keys) :
    binsOf (store key) bin = some v := by
  rw [setupOp, hseed] at h
  obtain rfl := Option.some.inj h
  refine foldl_establishes (P := fun store key => binsOf (store key) bin = some v) ?_ ?_
    hkey store₀
  · intro s key
    rw [binsOf_put]
    exact hbin _
  · intro s key key' h
    by_cases hne : key = key'
    · subst hne
      rw [binsOf_put]
      exact hbin _
    · rw [put, Function.update_of_ne hne]
      exact h

end RostamBench.Netkv.Aerospike
