import RostamBench.Lib.BigEndian

/-!
What a worker of `netkv` asks an engine to do: the keys, the choice of the
operation by `-mode`, and the two `doOp`s.

Every draw of a worker comes from its own `math/rand` source, in the order in
which the code makes them, so the source is passed along as a state (`Rand`).
A `Request` is the call an engine makes of a store, before it is put in the
words of that store's protocol: with the key, the operation and the arguments
that were drawn or fixed for it.

`rostamEngine` and `aerospikeEngine` are the only engines with a `doOp`. They
are written out twice in the source and stay two definitions here
(`rostamDoOp`, `aerospikeDoOp`).
-/

namespace RostamBench.Netkv

open BigEndian

/-- `math/rand`, and the Zipfian source with its parameters `1.1` and `1`. -/
structure Rand (σ : Type*) where
  /-- `rand.NewSource(seed)`. -/
  newSource : Int64 → σ
  /-- `Intn(n)` for a positive `n`. -/
  intn : ℕ → σ → ℕ × σ
  /-- `Int63n(n)` for a positive `n`. -/
  int63n : Int64 → σ → Int64 × σ
  /-- `NewZipf(rng, 1.1, 1, imax).Uint64()`. -/
  zipf : UInt64 → σ → UInt64 × σ

/-- The values of `-mode`. -/
inductive Mode
  | kv
  | atomic
  | incr
  | cas
  | append
  | bitmask
  deriving DecidableEq, Repr

/-- The text of the flag. -/
def Mode.flag : Mode → String
  | .kv => "kv"
  | .atomic => "atomic"
  | .incr => "incr"
  | .cas => "cas"
  | .append => "append"
  | .bitmask => "bitmask"

inductive Request
  | get (key : Bytes)
  | put (key val : Bytes)
  | atomicUpdate (key : Bytes) (streak points : Int64)
  | incr (key : Bytes) (delta : Int64)
  | casIncr (key : Bytes)
  | append (key suffix : Bytes)
  | shift (key : Bytes)
  deriving DecidableEq, Repr

/-- The bytes of an ASCII string. -/
def ascii (s : String) : Bytes := s.toList.map fun c => UInt8.ofNat c.toNat

/-! ### Keys and values -/

/-- The 16-byte key of index `i`: a fixed start, four bytes of the index with the
lowest first, and zeros. -/
def keyOf (i : ℕ) : Bytes :=
  ascii "key:" ++ [UInt8.ofNat i, UInt8.ofNat (i >>> 8), UInt8.ofNat (i >>> 16),
    UInt8.ofNat (i >>> 24)] ++ List.replicate 8 0

/-- `keys` of `main`. -/
def mkKeys (n : ℕ) : List Bytes := (List.range n).map keyOf

/-- `val` of `main`. -/
def mkVal (n : ℕ) : Bytes := (List.range n).map fun i => UInt8.ofNat ('a'.toNat + i % 26)

/-! ### Seeding -/

/-- What a step on a key establishes for it, and a step on any key keeps, holds of
all keys in the end. -/
theorem foldl_establishes {S : Type*} {key : Bytes} {f : S → Bytes → S} {P : S → Bytes → Prop}
    (hset : ∀ s key, P (f s key) key) (hkeep : ∀ s key key', P s key → P (f s key') key)
    {keys : List Bytes} (hkey : key ∈ keys) (s : S) : P (keys.foldl f s) key := by
  have hstay {s : S} (h : P s key) (keys : List Bytes) : P (keys.foldl f s) key := by
    induction keys generalizing s with
    | nil => exact h
    | cons key' keys ih => exact ih (hkeep s key key' h)
  induction keys generalizing s with
  | nil => simp at hkey
  | cons key' keys ih =>
      rcases List.mem_cons.mp hkey with rfl | hkey
      · exact hstay (hset s key) keys
      · exact ih hkey _

/-! ### `doOp` -/

variable {σ : Type*}

/-- What one iteration asks for, and the source after its draws. -/
abbrev Op (σ : Type*) := σ → Bytes → Request × σ

def rostamAppendSuffix : Bytes := ascii "rostam!!"

/-- `rostamEngine.doOp`; `none` is its error for an unsupported mode. -/
def rostamDoOp (R : Rand σ) : Mode → Option (Op σ)
  | .atomic => some fun rng key =>
      let (streak, rng) := R.int63n 1000 rng
      (.atomicUpdate key streak 10, rng)
  | .incr => some fun rng key => (.incr key 1, rng)
  | .cas => some fun rng key => (.casIncr key, rng)
  | .append => some fun rng key => (.append key rostamAppendSuffix, rng)
  | .bitmask => some fun rng key => (.shift key, rng)
  | .kv => none

/-- `aerospikeEngine.doOp`; the client's `NewKey` takes any byte key. -/
def aerospikeDoOp (R : Rand σ) : Mode → Option (Op σ)
  | .atomic => some fun rng key =>
      let (streak, rng) := R.int63n 1000 rng
      (.atomicUpdate key streak 10, rng)
  | .incr => some fun rng key => (.incr key 1, rng)
  | .cas => some fun rng key => (.casIncr key, rng)
  | .append => some fun rng key => (.append key (ascii "rostam!!"), rng)
  | .bitmask => some fun rng key => (.shift key, rng)
  | .kv => none

/-! ### The operation of a run -/

/-- The engines of `-engine`; `-pipeline` makes the pipelined one of `rostam`. -/
inductive Engine
  | rostam
  | rostamPipe
  | redis
  | valkey
  | dragonfly
  | keydb
  | memcached
  | aerospike
  deriving DecidableEq, Repr

/-- `eng.(opEngine)`. -/
def Engine.doOp (R : Rand σ) : Engine → Option (Mode → Option (Op σ))
  | .rostam => some (rostamDoOp R)
  | .aerospike => some (aerospikeDoOp R)
  | .rostamPipe | .redis | .valkey | .dragonfly | .keydb | .memcached => none

/-- `op` of `main`, or nothing when the engine has no such mode. -/
def Engine.op (R : Rand σ) (eng : Engine) (readPct : ℤ) (val : Bytes) (mode : Mode) :
    Option (Op σ) :=
  match mode with
  | .kv => some fun rng key =>
      let (n, rng) := R.intn 100 rng
      (if n < readPct then .get key else .put key val, rng)
  | .atomic | .incr | .cas | .append | .bitmask => (eng.doOp R).bind fun doOp => doOp mode

/-- The two `doOp`s draw the same and ask for the same. -/
theorem rostamDoOp_eq_aerospikeDoOp (R : Rand σ) : rostamDoOp R = aerospikeDoOp R := by
  funext mode
  cases mode <;> rfl

/-- Engines that support a mode have the same operation for it. -/
theorem Engine.op_unique {R : Rand σ} {eng₁ eng₂ : Engine} {readPct : ℤ} {val : Bytes}
    {mode : Mode} {op₁ op₂ : Op σ} (h₁ : eng₁.op R readPct val mode = some op₁)
    (h₂ : eng₂.op R readPct val mode = some op₂) : op₁ = op₂ := by
  have hdoOp {eng : Engine} {op : Op σ} (h : (eng.doOp R).bind (fun doOp => doOp mode) = some op) :
      rostamDoOp R mode = some op := by
    cases eng with
    | rostam => exact h
    | aerospike => rw [rostamDoOp_eq_aerospikeDoOp]; exact h
    | rostamPipe | redis | valkey | dragonfly | keydb | memcached => cases h
  cases mode with
  | kv => exact Option.some.inj (h₁.symm.trans h₂)
  | atomic | incr | cas | append | bitmask =>
      exact Option.some.inj ((hdoOp h₁).symm.trans (hdoOp h₂))

end RostamBench.Netkv
