import RostamBench.Lib.BigEndian
import RostamBench.Lib.CellProg

/-!
The operations `rostam_server` registers beside the builtins: `aru`, `casw`,
`app` and `shft`.

A handler is a program of `tx.Get` and `tx.Put` steps (`Handler`), so the
dispatcher can interleave it with others; each step is atomic on the cell of one
key. All four read the std prefix `[keyLen u16][key]` off their arguments, read
the current value of that key, compute, and write it back, and all four treat a
missing value as a default and pass any other error of `tx` on. That shape is
`update`; a handler adds its own arithmetic, and only `casw` may decide not to
write.

What the dispatcher needs to know of them is `*_touches`: a handler touches no
key but the one in its prefix.
-/

namespace RostamBench.Server

open BigEndian Effects CellProg

/-- `cache.ErrNotFound`, or anything else `tx` may fail with. -/
inductive TxErr
  | notFound
  | failed (msg : String)
  deriving DecidableEq, Repr

/-- `tx.Get(key)` and `tx.Put(key, v, 0)`. -/
inductive TxOp
  | get (key : Bytes)
  | put (key v : Bytes)
  deriving DecidableEq, Repr

@[reducible]
def TxOp.Result : TxOp → Type
  | .get _ => Except TxErr Bytes
  | .put _ _ => Option TxErr

def TxOp.key : TxOp → Bytes
  | .get key | .put key _ => key

/-- When a `tx.Get` or a `tx.Put` fails, given the key and what is stored under
it. -/
structure TxContext where
  getErr : Bytes → Option Bytes → Option String
  putErr : Bytes → Option Bytes → Bytes → Option String

/-- A context in which nothing but an absent key fails. -/
def TxContext.reliable : TxContext where
  getErr _ _ := none
  putErr _ _ _ := none

/-- `tx.Get` of a cell. -/
def TxContext.get (tx : TxContext) (key : Bytes) (cell : Option Bytes) : Except TxErr Bytes :=
  match tx.getErr key cell with
  | some msg => .error (.failed msg)
  | none =>
      match cell with
      | some v => .ok v
      | none => .error .notFound

/-- One operation on the cell of its key; one that fails changes nothing. -/
def TxContext.act (tx : TxContext) : Act (Option Bytes) TxOp.Result
  | .get key, cell => (cell, tx.get key cell)
  | .put key v, cell =>
      match tx.putErr key cell v with
      | some msg => (cell, some (.failed msg))
      | none => (some v, none)

def TxContext.ops (tx : TxContext) : CellOps Bytes (Option Bytes) TxOp.Result where
  key := TxOp.key
  act := tx.act

/-- A `tx.Get` leaves the cache alone. -/
theorem TxContext.onStore_get (tx : TxContext) (cells : Bytes → Option Bytes) (key : Bytes) :
    tx.ops.onStore (.get key) cells = (cells, tx.get key (cells key)) :=
  Prod.ext (Function.update_eq_self key cells) rfl

/-- A `tx.Get` of a key that is there. -/
theorem TxContext.reliable_get {cells : Bytes → Option Bytes} {key v : Bytes}
    (hv : cells key = some v) :
    TxContext.reliable.ops.onStore (.get key) cells = (cells, .ok v) := by
  rw [TxContext.onStore_get, hv]
  rfl

/-- A `tx.Get` of a key that is not. -/
theorem TxContext.reliable_get_none {cells : Bytes → Option Bytes} {key : Bytes}
    (hv : cells key = none) :
    TxContext.reliable.ops.onStore (.get key) cells = (cells, .error .notFound) := by
  rw [TxContext.onStore_get, hv]
  rfl

/-- The errors `Call` returns. -/
inductive OpErr
  /-- An `errors.New` of the handler. -/
  | text (msg : String)
  | tx (err : TxErr)
  /-- `op %q not registered`. -/
  | notRegistered (name : String)
  deriving DecidableEq, Repr

/-- What a call returns; a nil body is the empty one. -/
abbrev Response := Except OpErr Bytes

abbrev OpProg := Prog TxOp.Result Response

abbrev Handler := Bytes → OpProg

/-! ### Fixed-width fields -/

/-- `binary.BigEndian.Uint64(b[0:8])`. -/
def getUint64 (b : Bytes) : UInt64 := UInt64.ofNat (natOf (b.take 8))

/-- `binary.BigEndian.PutUint64`. -/
def putUint64 (v : UInt64) : Bytes := bytesOf 8 v.toNat

def getInt64 (b : Bytes) : Int64 := (getUint64 b).toInt64

def putInt64 (v : Int64) : Bytes := putUint64 v.toUInt64

theorem length_putUint64 (v : UInt64) : (putUint64 v).length = 8 := length_bytesOf 8 _

theorem length_putInt64 (v : Int64) : (putInt64 v).length = 8 := length_putUint64 _

theorem getUint64_putUint64_append (v : UInt64) (rest : Bytes) :
    getUint64 (putUint64 v ++ rest) = v := by
  have hnat : natOf (bytesOf 8 v.toNat) = v.toNat :=
    natOf_bytesOf_of_lt (by simpa using v.toNat_lt)
  rw [getUint64, List.take_left' (length_putUint64 v), putUint64, hnat, UInt64.ofNat_toNat]

theorem getInt64_putInt64_append (v : Int64) (rest : Bytes) :
    getInt64 (putInt64 v ++ rest) = v := by
  rw [getInt64, putInt64, getUint64_putUint64_append]
  rfl

/-! ### The std prefix -/

/-- `int(binary.BigEndian.Uint16(args[0:2]))`. -/
def keyLen (args : Bytes) : ℕ := natOf (args.take 2)

/-- The key of the prefix `[keyLen u16][key]`, when the arguments hold it. -/
def stdPrefix (args : Bytes) : Option Bytes :=
  if args.length < 2 + keyLen args then none else some ((args.take (2 + keyLen args)).drop 2)

/-- The two length checks every handler starts with: the arguments hold the
prefix and `need` more bytes. Returns the key and what follows it. -/
def splitArgs (op : String) (need : ℕ) (args : Bytes) : Except OpErr (Bytes × Bytes) :=
  if args.length < 2 then .error (.text (op ++ ": short args"))
  else
    let off := 2 + keyLen args
    if args.length < off + need then .error (.text (op ++ ": short payload"))
    else .ok ((args.take off).drop 2, args.drop off)

/-- Past its checks a handler works on the key the std prefix carries. -/
theorem stdPrefix_of_splitArgs {op : String} {need : ℕ} {args key payload : Bytes}
    (h : splitArgs op need args = .ok (key, payload)) : stdPrefix args = some key := by
  unfold splitArgs at h
  split at h
  · cases h
  · simp only at h
    split at h
    · cases h
    · have hlen : ¬ args.length < 2 + keyLen args := by omega
      simp only [Except.ok.injEq, Prod.mk.injEq] at h
      rw [stdPrefix, if_neg hlen, h.1]

/-! ### Read, modify, write -/

/-- What a handler makes of the current value. -/
inductive Update
  /-- Write nothing and answer. -/
  | keep (resp : Bytes)
  /-- Write the value, then answer. -/
  | write (v resp : Bytes)

def commit (key : Bytes) : Update → OpProg
  | .keep resp => .ret (.ok resp)
  | .write v resp => .op (.put key v) fun
      | some err => .ret (.error (.tx err))
      | none => .ret (.ok resp)

/-- Get the value of the key, with `none` for an absent one, and do what `f`
says. -/
def update (key : Bytes) (f : Option Bytes → Update) : OpProg :=
  .op (.get key) fun
    | .ok cur => commit key (f (some cur))
    | .error .notFound => commit key (f none)
    | .error (.failed msg) => .ret (.error (.tx (.failed msg)))

/-- The checks, then the update of the key of the prefix. -/
def updateArgs (op : String) (need : ℕ) (f : Bytes → Option Bytes → Update) : Handler :=
  fun args =>
    match splitArgs op need args with
    | .error err => .ret (.error err)
    | .ok (key, payload) => update key (f payload)

/-- The three counters of a packed record. -/
structure Record where
  games : Int64
  best : Int64
  score : Int64
  deriving DecidableEq, Repr

/-- A value too short to be a record counts as the zero record, and so does an
absent one. -/
def decodeRecord : Option Bytes → Record
  | some cur =>
      if 24 ≤ cur.length then
        { games := getInt64 cur, best := getInt64 (cur.drop 8), score := getInt64 (cur.drop 16) }
      else { games := 0, best := 0, score := 0 }
  | none => { games := 0, best := 0, score := 0 }

def encodeRecord (r : Record) : Bytes :=
  putInt64 r.games ++ putInt64 r.best ++ putInt64 r.score

/-- Fold one match result into a record. -/
def Record.fold (r : Record) (streak points : Int64) : Record where
  games := r.games + 1
  best := if r.best < streak then streak else r.best
  score := r.score + points

def handleAtomicRecordUpdate : Handler :=
  updateArgs "aru" 16 fun payload cur =>
    let streak := getInt64 payload
    let points := getInt64 (payload.drop 8)
    let out := encodeRecord ((decodeRecord cur).fold streak points)
    .write out out

/-- A counter value; too short or absent counts as zero. -/
def decodeCounter : Option Bytes → Int64
  | some v => if 8 ≤ v.length then getInt64 v else 0
  | none => 0

def handleCASWrite : Handler :=
  updateArgs "casw" 16 fun payload cur =>
    let expected := getInt64 payload
    let newVal := getInt64 (payload.drop 8)
    if decodeCounter cur ≠ expected then .keep [0] else .write (putInt64 newVal) [1]

def handleAppend : Handler :=
  updateArgs "app" 0 fun suffix cur => .write (cur.getD [] ++ suffix) []

/-- The bitmask value; too short or absent counts as zero. -/
def decodeMask : Option Bytes → UInt64
  | some cur => if 8 ≤ cur.length then getUint64 cur else 0
  | none => 0

def handleShift : Handler :=
  updateArgs "shft" 0 fun _ cur => .write (putUint64 (decodeMask cur <<< 1 ||| 1)) []

/-! ### What a handler touches -/

theorem update_touches (key : Bytes) (f : Option Bytes → Update) {P : Bytes → Prop}
    (hkey : P key) : (update key f).Uses fun o => P o.key := by
  have hcommit (u : Update) : (commit key u).Uses fun o => P o.key := by
    cases u with
    | keep resp => trivial
    | write v resp =>
        refine ⟨hkey, fun r => ?_⟩
        cases r <;> trivial
  refine ⟨hkey, fun r => ?_⟩
  rcases r with (_ | msg) | cur
  · exact hcommit _
  · trivial
  · exact hcommit _

theorem updateArgs_touches (op : String) (need : ℕ) (f : Bytes → Option Bytes → Update)
    (args : Bytes) : (updateArgs op need f args).Uses fun o => stdPrefix args = some o.key := by
  unfold updateArgs
  split
  · trivial
  · rename_i key payload hsplit
    exact update_touches key _ (P := fun k => stdPrefix args = some k)
      (stdPrefix_of_splitArgs hsplit)

/-! ### A handler on well-formed arguments -/

/-- `[keyLen u16][key]` and the payload of an operation. -/
def stdArgs (key payload : Bytes) : Bytes := bytesOf 2 key.length ++ key ++ payload

theorem keyLen_stdArgs {key : Bytes} (hkey : key.length < 2 ^ 16) (payload : Bytes) :
    keyLen (stdArgs key payload) = key.length := by
  rw [keyLen, stdArgs, List.append_assoc, List.take_left' (length_bytesOf 2 _),
    natOf_bytesOf_of_lt hkey]

theorem splitArgs_stdArgs (op : String) {need : ℕ} {key payload : Bytes}
    (hkey : key.length < 2 ^ 16) (hneed : need ≤ payload.length) :
    splitArgs op need (stdArgs key payload) = .ok (key, payload) := by
  have hkeyLen : keyLen (stdArgs key payload) = key.length := keyLen_stdArgs hkey payload
  have hoff : (bytesOf 2 key.length ++ key).length = 2 + key.length := by
    simp [length_bytesOf]
  have hlen : (stdArgs key payload).length = 2 + key.length + payload.length := by
    rw [stdArgs, List.length_append, hoff]
  have hshort : ¬ (stdArgs key payload).length < 2 := by omega
  have hpayload : ¬ (stdArgs key payload).length < 2 + key.length + need := by omega
  simp only [splitArgs, hkeyLen, if_neg hshort, if_neg hpayload]
  rw [stdArgs, List.take_left' hoff, List.drop_left' hoff, List.drop_left' (length_bytesOf 2 _)]

/-- What a handler's decision does to the cache, when no `tx` step fails. -/
def Update.apply (key : Bytes) (cells : Bytes → Option Bytes) :
    Update → (Bytes → Option Bytes) × Response
  | .keep resp => (cells, .ok resp)
  | .write v resp => (Function.update cells key (some v), .ok resp)

theorem run_update (key : Bytes) (f : Option Bytes → Update) (cells : Bytes → Option Bytes) :
    TxContext.reliable.ops.run (update key f) cells = (f (cells key)).apply key cells := by
  have hcommit (u : Update) :
      TxContext.reliable.ops.run (commit key u) cells = u.apply key cells := by
    cases u <;> rfl
  cases hcell : cells key with
  | none =>
      rw [update, CellOps.run, Prog.run, TxContext.reliable_get_none hcell]
      exact hcommit _
  | some v =>
      rw [update, CellOps.run, Prog.run, TxContext.reliable_get hcell]
      exact hcommit _

theorem run_updateArgs (op : String) {need : ℕ} (f : Bytes → Option Bytes → Update)
    {key payload : Bytes} (hkey : key.length < 2 ^ 16) (hneed : need ≤ payload.length)
    (cells : Bytes → Option Bytes) :
    TxContext.reliable.ops.run (updateArgs op need f (stdArgs key payload)) cells =
      (f payload (cells key)).apply key cells := by
  rw [updateArgs, splitArgs_stdArgs op hkey hneed]
  exact run_update key (f payload) cells

end RostamBench.Server
