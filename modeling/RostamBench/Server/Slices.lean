import RostamBench.Server.Handlers

/-!
The four handlers with every slice they take.

`Server.Handlers` cuts byte strings with `take` and `drop`, which cannot fail. In
the source a slice out of range panics, and so does reading an integer from too few
bytes. Here both are checked, and a program ends with `none` when one of them
fails. The result of the first half is that none does: with its slices checked, a
handler is the handler of `Server.Handlers` (`handler_eq`).

The second half says what a handler may do to the cache, whatever `tx` does:
nothing when it returns an error, and otherwise no more than one write under its
key.
-/

namespace RostamBench.Server.Sliced

open BigEndian Effects CellProg

/-! ### Slices -/

/-- `b[lo:hi]`; `none` is a slice out of range. -/
def slice (b : Bytes) (lo hi : ℕ) : Option Bytes :=
  if lo ≤ hi ∧ hi ≤ b.length then some ((b.take hi).drop lo) else none

/-- `binary.BigEndian.Uint16`. -/
def uint16 (b : Bytes) : Option ℕ := if 2 ≤ b.length then some (natOf (b.take 2)) else none

/-- `binary.BigEndian.Uint64`. -/
def uint64 (b : Bytes) : Option UInt64 := if 8 ≤ b.length then some (getUint64 b) else none

/-- `binary.BigEndian.Uint64(b[lo:lo+8])`. -/
def uint64At (b : Bytes) (lo : ℕ) : Option UInt64 := do uint64 (← slice b lo (lo + 8))

def int64At (b : Bytes) (lo : ℕ) : Option Int64 := (uint64At b lo).map UInt64.toInt64

theorem slice_eq {b : Bytes} {lo hi : ℕ} (hlo : lo ≤ hi) (hhi : hi ≤ b.length) :
    slice b lo hi = some ((b.take hi).drop lo) :=
  if_pos ⟨hlo, hhi⟩

theorem uint64At_eq {b : Bytes} {lo : ℕ} (h : lo + 8 ≤ b.length) :
    uint64At b lo = some (getUint64 (b.drop lo)) := by
  have hslice : (b.take (lo + 8)).drop lo = (b.drop lo).take 8 := by
    rw [List.drop_take, Nat.add_sub_cancel_left]
  have hlen : 8 ≤ ((b.drop lo).take 8).length := by
    rw [List.length_take, List.length_drop]
    omega
  rw [uint64At, slice_eq (by omega) h, hslice]
  show uint64 ((b.drop lo).take 8) = _
  rw [uint64, if_pos hlen, getUint64, getUint64, List.take_take, Nat.min_self]

theorem int64At_eq {b : Bytes} {lo : ℕ} (h : lo + 8 ≤ b.length) :
    int64At b lo = some (getInt64 (b.drop lo)) := by
  rw [int64At, uint64At_eq h]
  rfl

/-! ### The handlers -/

/-- A handler that may panic; `none` is the panic. -/
abbrev PanicProg := Prog TxOp.Result (Option Response)

/-- The checks every handler starts with. Returns the key and the offset of what
follows it. -/
def parseKey (op : String) (need : ℕ) (args : Bytes) : Option (Except OpErr (Bytes × ℕ)) :=
  if args.length < 2 then some (.error (.text (op ++ ": short args")))
  else do
    let klen ← uint16 (← slice args 0 2)
    let off := 2 + klen
    if args.length < off + need then some (.error (.text (op ++ ": short payload")))
    else do
      let key ← slice args 2 off
      some (.ok (key, off))

/-- `tx.Put`, if there is something to put. -/
def commit (key : Bytes) : Update → PanicProg
  | .keep resp => .ret (some (.ok resp))
  | .write v resp => .op (.put key v) fun
      | some err => .ret (some (.error (.tx err)))
      | none => .ret (some (.ok resp))

/-- The switch on `tx.Get`, and what follows it. -/
def update (key : Bytes) (f : Option Bytes → Option Update) : PanicProg :=
  .op (.get key) fun
    | .ok cur => orPanic (f (some cur))
    | .error .notFound => orPanic (f none)
    | .error (.failed msg) => .ret (some (.error (.tx (.failed msg))))
where
  orPanic : Option Update → PanicProg
    | some u => commit key u
    | none => .ret none

/-- Go on with what was parsed. -/
def andThen {α : Type} (parsed : Option (Except OpErr α)) (f : α → PanicProg) : PanicProg :=
  match parsed with
  | none => .ret none
  | some (.error err) => .ret (some (.error err))
  | some (.ok a) => f a

/-- The key and two `int64` fields. -/
def parsePair (op : String) (args : Bytes) : Option (Except OpErr (Bytes × Int64 × Int64)) := do
  match ← parseKey op 16 args with
  | .error err => some (.error err)
  | .ok (key, off) => do
      let x ← int64At args off
      let y ← int64At args (off + 8)
      some (.ok (key, x, y))

/-- The key and what follows it. -/
def parseSuffix (op : String) (args : Bytes) : Option (Except OpErr (Bytes × Bytes)) := do
  match ← parseKey op 0 args with
  | .error err => some (.error err)
  | .ok (key, off) => do
      let suffix ← slice args off args.length
      some (.ok (key, suffix))

def recordOf : Option Bytes → Option Record
  | some cur =>
      if 24 ≤ cur.length then do
        let games ← int64At cur 0
        let best ← int64At cur 8
        let score ← int64At cur 16
        some { games := games, best := best, score := score }
      else some { games := 0, best := 0, score := 0 }
  | none => some { games := 0, best := 0, score := 0 }

def handleAtomicRecordUpdate (args : Bytes) : PanicProg :=
  andThen (parsePair "aru" args) fun (key, streak, points) =>
    update key fun cur => do
      let r ← recordOf cur
      let out := encodeRecord (r.fold streak points)
      some (.write out out)

def counterOf : Option Bytes → Option Int64
  | some v => if 8 ≤ v.length then int64At v 0 else some 0
  | none => some 0

def handleCASWrite (args : Bytes) : PanicProg :=
  andThen (parsePair "casw" args) fun (key, expected, newVal) =>
    update key fun v => do
      let cur ← counterOf v
      some (if cur ≠ expected then .keep [0] else .write (putInt64 newVal) [1])

def handleAppend (args : Bytes) : PanicProg :=
  andThen (parseSuffix "app" args) fun (key, suffix) =>
    update key fun cur => some (.write (cur.getD [] ++ suffix) [])

def maskOf : Option Bytes → Option UInt64
  | some cur => if 8 ≤ cur.length then uint64At cur 0 else some 0
  | none => some 0

def handleShift (args : Bytes) : PanicProg :=
  andThen (parseKey "shft" 0 args) fun (key, _) =>
    update key fun cur => do
      let v ← maskOf cur
      some (.write (putUint64 (v <<< 1 ||| 1)) [])

/-- The custom ops of the server. -/
inductive CustomOp
  | aru
  | casw
  | app
  | shft
  deriving DecidableEq, Repr

def CustomOp.name : CustomOp → String
  | .aru => "aru"
  | .casw => "casw"
  | .app => "app"
  | .shft => "shft"

/-- The bytes an op needs after its key. -/
def CustomOp.need : CustomOp → ℕ
  | .aru | .casw => 16
  | .app | .shft => 0

def CustomOp.sliced : CustomOp → Bytes → PanicProg
  | .aru => handleAtomicRecordUpdate
  | .casw => handleCASWrite
  | .app => handleAppend
  | .shft => handleShift

/-- The same op in `Server.Handlers`. -/
def CustomOp.handler : CustomOp → Handler
  | .aru => Server.handleAtomicRecordUpdate
  | .casw => Server.handleCASWrite
  | .app => Server.handleAppend
  | .shft => Server.handleShift

/-! ### No slice is out of range -/

/-- The key of the prefix, `args[2:2+keyLen]`. -/
def keyOf (args : Bytes) : Bytes := (args.take (2 + keyLen args)).drop 2

/-- The outcome of the two checks. -/
theorem splitArgs_cases (op : String) (need : ℕ) (args : Bytes) :
    (args.length < 2 ∧ splitArgs op need args = .error (.text (op ++ ": short args"))) ∨
    (2 ≤ args.length ∧ args.length < 2 + keyLen args + need ∧
      splitArgs op need args = .error (.text (op ++ ": short payload"))) ∨
    (2 ≤ args.length ∧ 2 + keyLen args + need ≤ args.length ∧
      splitArgs op need args = .ok (keyOf args, args.drop (2 + keyLen args))) := by
  rw [splitArgs]
  split
  · rename_i hlen
    exact Or.inl ⟨hlen, rfl⟩
  · rename_i hlen
    simp only
    split
    · rename_i hshort
      exact Or.inr (Or.inl ⟨Nat.not_lt.mp hlen, hshort, rfl⟩)
    · rename_i hneed
      exact Or.inr (Or.inr ⟨Nat.not_lt.mp hlen, Nat.not_lt.mp hneed, rfl⟩)

/-- A program that does not panic. -/
def returning (p : OpProg) : PanicProg := p.bind fun r => .ret (some r)

theorem parseKey_eq (op : String) (need : ℕ) (args : Bytes) :
    parseKey op need args =
      some ((splitArgs op need args).map fun p => (p.1, 2 + keyLen args)) := by
  rw [parseKey, splitArgs]
  split
  · rfl
  · rename_i hlen
    have hslice : slice args 0 2 = some (args.take 2) := slice_eq (by omega) (by omega)
    have hklen : uint16 (args.take 2) = some (keyLen args) := by
      have htwo : 2 ≤ (args.take 2).length := by
        rw [List.length_take]
        omega
      rw [uint16, if_pos htwo, keyLen, List.take_take, Nat.min_self]
    rw [hslice, Option.bind_eq_bind, Option.bind_some, hklen, Option.bind_eq_bind,
      Option.bind_some]
    show (if args.length < 2 + keyLen args + need then _ else _) = _
    simp only
    split
    · rfl
    · rw [slice_eq (by omega) (by omega)]
      rfl

theorem recordOf_eq (cur : Option Bytes) : recordOf cur = some (decodeRecord cur) := by
  cases cur with
  | none => rfl
  | some cur =>
      rw [recordOf, decodeRecord]
      split
      · rw [int64At_eq (by omega), int64At_eq (by omega), int64At_eq (by omega)]
        rfl
      · rfl

theorem counterOf_eq (cur : Option Bytes) : counterOf cur = some (decodeCounter cur) := by
  cases cur with
  | none => rfl
  | some v =>
      rw [counterOf, decodeCounter]
      split
      · rw [int64At_eq (by omega)]
        rfl
      · rfl

theorem maskOf_eq (cur : Option Bytes) : maskOf cur = some (decodeMask cur) := by
  cases cur with
  | none => rfl
  | some cur =>
      rw [maskOf, decodeMask]
      split
      · rw [uint64At_eq (by omega)]
        rfl
      · rfl

theorem commit_eq (key : Bytes) (u : Update) : commit key u = returning (Server.commit key u) := by
  cases u with
  | keep resp => rfl
  | write v resp =>
      rw [commit, Server.commit, returning, Prog.bind]
      congr 1
      funext err
      cases err <;> rfl

theorem update_eq {key : Bytes} {f : Option Bytes → Option Update} {g : Option Bytes → Update}
    (h : ∀ cur, f cur = some (g cur)) : update key f = returning (Server.update key g) := by
  rw [update, Server.update, returning, Prog.bind]
  congr 1
  funext r
  rcases r with (_ | msg) | cur
  · show update.orPanic key (f none) = returning (Server.commit key (g none))
    rw [h]
    exact commit_eq key _
  · rfl
  · show update.orPanic key (f (some cur)) = returning (Server.commit key (g (some cur)))
    rw [h]
    exact commit_eq key _

/-- The fields of `aru` and `casw` are in range once the checks are passed. -/
theorem parsePair_eq (op : String) (args : Bytes) :
    parsePair op args = some ((splitArgs op 16 args).map fun p =>
      (p.1, getInt64 p.2, getInt64 (p.2.drop 8))) := by
  rw [parsePair, parseKey_eq, Option.bind_eq_bind, Option.bind_some]
  rcases splitArgs_cases op 16 args with ⟨-, hsplit⟩ | ⟨-, -, hsplit⟩ | ⟨-, hneed, hsplit⟩
  · rw [hsplit]
    rfl
  · rw [hsplit]
    rfl
  · have hdrop : args.drop (2 + keyLen args + 8) = (args.drop (2 + keyLen args)).drop 8 := by
      rw [List.drop_drop]
    rw [hsplit]
    show (int64At args (2 + keyLen args)).bind _ = _
    rw [int64At_eq (by omega), Option.bind_some]
    show (int64At args (2 + keyLen args + 8)).bind _ = _
    rw [int64At_eq (by omega), Option.bind_some, hdrop]
    rfl

theorem parseSuffix_eq (op : String) (args : Bytes) :
    parseSuffix op args = some (splitArgs op 0 args) := by
  rw [parseSuffix, parseKey_eq, Option.bind_eq_bind, Option.bind_some]
  rcases splitArgs_cases op 0 args with ⟨-, hsplit⟩ | ⟨-, -, hsplit⟩ | ⟨-, hneed, hsplit⟩
  · rw [hsplit]
    rfl
  · rw [hsplit]
    rfl
  · rw [hsplit]
    show (slice args (2 + keyLen args) args.length).bind _ = _
    rw [slice_eq (by omega) (le_refl _), List.take_length]
    rfl

/-- A handler that parses what `Server.updateArgs` splits off. -/
theorem andThen_eq {α : Type} {op : String} {need : ℕ} {args : Bytes} {p : Bytes × Bytes → α}
    {f : α → PanicProg} {g : Bytes → Option Bytes → Update}
    (h : ∀ key payload, f (p (key, payload)) = returning (Server.update key (g payload))) :
    andThen (some ((splitArgs op need args).map p)) f =
      returning (Server.updateArgs op need g args) := by
  rw [Server.updateArgs]
  cases splitArgs op need args with
  | error err => rfl
  | ok q => exact h q.1 q.2

/-- No handler slices out of range, and with its slices in range it is the handler
of `Server.Handlers`. -/
theorem handler_eq (o : CustomOp) (args : Bytes) : o.sliced args = returning (o.handler args) := by
  cases o with
  | aru =>
      show andThen (parsePair "aru" args) _ = _
      rw [parsePair_eq]
      apply andThen_eq
      intro key payload
      apply update_eq
      intro cur
      rw [recordOf_eq]
      rfl
  | casw =>
      show andThen (parsePair "casw" args) _ = _
      rw [parsePair_eq]
      apply andThen_eq
      intro key payload
      apply update_eq
      intro cur
      rw [counterOf_eq]
      rfl
  | app =>
      show andThen (parseSuffix "app" args) _ = _
      rw [parseSuffix_eq]
      have hmap : splitArgs "app" 0 args = (splitArgs "app" 0 args).map id := by
        cases splitArgs "app" 0 args <;> rfl
      rw [hmap]
      apply andThen_eq
      intro key payload
      exact update_eq fun cur => rfl
  | shft =>
      show andThen (parseKey "shft" 0 args) _ = _
      rw [parseKey_eq]
      apply andThen_eq
      intro key payload
      apply update_eq
      intro cur
      rw [maskOf_eq]
      rfl

/-! ### What a handler does to the cache -/

/-- How an update of `key` may end: with an error of `tx`, without a write, or with
one. -/
inductive Settles (tx : TxContext) (cells : Bytes → Option Bytes) (key : Bytes) :
    Update → (Bytes → Option Bytes) × Response → Prop
  | getFailed (u : Update) {msg : String} (h : tx.getErr key (cells key) = some msg) :
      Settles tx cells key u (cells, .error (.tx (.failed msg)))
  | putFailed (v resp : Bytes) {msg : String} (h : tx.putErr key (cells key) v = some msg) :
      Settles tx cells key (.write v resp) (cells, .error (.tx (.failed msg)))
  | kept (resp : Bytes) : Settles tx cells key (.keep resp) (cells, .ok resp)
  | written (v resp : Bytes) :
      Settles tx cells key (.write v resp) (Function.update cells key (some v), .ok resp)

theorem run_commit_settles (tx : TxContext) (key : Bytes) (cells : Bytes → Option Bytes)
    (u : Update) : Settles tx cells key u (tx.ops.run (Server.commit key u) cells) := by
  cases u with
  | keep resp => exact .kept resp
  | write v resp =>
      rw [Server.commit, CellOps.run, Prog.run]
      cases hput : tx.putErr key (cells key) v with
      | none =>
          have hact : tx.ops.onStore (.put key v) cells =
              (Function.update cells key (some v), none) := by
            simp [CellOps.onStore, CellOps.store, TxContext.ops, TxContext.act, TxOp.key, hput]
          rw [hact]
          exact .written v resp
      | some msg =>
          have hact : tx.ops.onStore (.put key v) cells = (cells, some (.failed msg)) := by
            simp [CellOps.onStore, CellOps.store, TxContext.ops, TxContext.act, TxOp.key, hput]
          rw [hact]
          exact .putFailed v resp hput

theorem run_update_settles (tx : TxContext) (key : Bytes) (f : Option Bytes → Update)
    (cells : Bytes → Option Bytes) :
    Settles tx cells key (f (cells key)) (tx.ops.run (Server.update key f) cells) := by
  rw [Server.update, CellOps.run, Prog.run, tx.onStore_get]
  cases herr : tx.getErr key (cells key) with
  | some msg =>
      have hget : tx.get key (cells key) = .error (.failed msg) := by simp [TxContext.get, herr]
      rw [hget]
      exact .getFailed _ herr
  | none =>
      cases hcell : cells key with
      | some v =>
          have hget : tx.get key (some v) = .ok v := by simp [TxContext.get, ← hcell, herr]
          rw [hget]
          exact run_commit_settles tx key cells _
      | none =>
          have hget : tx.get key none = .error .notFound := by
            simp [TxContext.get, ← hcell, herr]
          rw [hget]
          exact run_commit_settles tx key cells _

/-- How a handler may end, with the checks on its arguments. -/
theorem run_updateArgs_settles (tx : TxContext) (op : String) (need : ℕ)
    (f : Bytes → Option Bytes → Update) (args : Bytes) (cells : Bytes → Option Bytes) :
    (args.length < 2 ∧ tx.ops.run (Server.updateArgs op need f args) cells =
      (cells, .error (.text (op ++ ": short args")))) ∨
    (2 ≤ args.length ∧ args.length < 2 + keyLen args + need ∧
      tx.ops.run (Server.updateArgs op need f args) cells =
        (cells, .error (.text (op ++ ": short payload")))) ∨
    (2 ≤ args.length ∧ 2 + keyLen args + need ≤ args.length ∧
      Settles tx cells (keyOf args) (f (args.drop (2 + keyLen args)) (cells (keyOf args)))
        (tx.ops.run (Server.updateArgs op need f args) cells)) := by
  rw [Server.updateArgs]
  rcases splitArgs_cases op need args with ⟨hlen, hsplit⟩ | ⟨hlen, hshort, hsplit⟩ |
    ⟨hlen, hneed, hsplit⟩
  · rw [hsplit]
    exact Or.inl ⟨hlen, rfl⟩
  · rw [hsplit]
    exact Or.inr (Or.inl ⟨hlen, hshort, rfl⟩)
  · rw [hsplit]
    refine Or.inr (Or.inr ⟨hlen, hneed, ?_⟩)
    exact run_update_settles tx (keyOf args) (f (args.drop (2 + keyLen args))) cells

/-- What a handler decides, given its payload and the value of its key. -/
def CustomOp.decide : CustomOp → Bytes → Option Bytes → Update
  | .aru => fun payload cur =>
      let out := encodeRecord ((decodeRecord cur).fold (getInt64 payload)
        (getInt64 (payload.drop 8)))
      .write out out
  | .casw => fun payload cur =>
      if decodeCounter cur ≠ getInt64 payload then .keep [0]
      else .write (putInt64 (getInt64 (payload.drop 8))) [1]
  | .app => fun suffix cur => .write (cur.getD [] ++ suffix) []
  | .shft => fun _ cur => .write (putUint64 (decodeMask cur <<< 1 ||| 1)) []

theorem CustomOp.handler_eq_updateArgs (o : CustomOp) :
    o.handler = Server.updateArgs o.name o.need o.decide := by
  cases o <;> rfl

/-- `casw` answers `0` only where it has not written. -/
theorem decide_casw_ne {payload : Bytes} {cur : Option Bytes} {v : Bytes} :
    CustomOp.casw.decide payload cur ≠ .write v [0] := by
  show (if decodeCounter cur ≠ getInt64 payload then Update.keep [0] else _) ≠ _
  split
  · exact nofun
  · simp

/-- Malformed arguments are answered with an error and nothing else, an error leaves
the cache alone, and a success changes no key but its own. -/
theorem malformed_args_rejected (tx : TxContext) (o : CustomOp) (args : Bytes)
    (cells : Bytes → Option Bytes) :
    ∃ cells' resp, tx.ops.run (o.sliced args) cells = (cells', some resp) ∧
      (resp = .error (.text (o.name ++ ": short args")) ↔ args.length < 2) ∧
      (resp = .error (.text (o.name ++ ": short payload")) ↔
        2 ≤ args.length ∧ args.length < 2 + keyLen args + o.need) ∧
      (∀ err, resp = .error err → cells' = cells) ∧
      (o = .casw → resp = .ok [0] → cells' = cells) ∧
      ∀ answer, resp = .ok answer → ∀ key, key ≠ keyOf args → cells' key = cells key := by
  have hrun : tx.ops.run (o.sliced args) cells =
      ((tx.ops.run (o.handler args) cells).1, some (tx.ops.run (o.handler args) cells).2) := by
    rw [handler_eq, returning, CellOps.run, Prog.run_bind]
    rfl
  refine ⟨_, _, hrun, ?_⟩
  have hne : o.name ++ ": short args" ≠ o.name ++ ": short payload" := by
    cases o <;> decide
  rw [o.handler_eq_updateArgs]
  rcases run_updateArgs_settles tx o.name o.need o.decide args cells with
    ⟨hlen, hres⟩ | ⟨hlen, hshort, hres⟩ | ⟨hlen, hneed, hres⟩
  · rw [hres]
    simp [hne, hlen]
  · rw [hres]
    simp [hne.symm, hshort]
    omega
  · have hlen' : ¬ args.length < 2 := by omega
    have hneed' : ¬ args.length < 2 + keyLen args + o.need := by omega
    generalize hout : tx.ops.run (Server.updateArgs o.name o.need o.decide args) cells = out at hres
    generalize hu : o.decide (args.drop (2 + keyLen args)) (cells (keyOf args)) = u at hres
    cases hres with
    | getFailed _ _ => simp [hlen', hneed']
    | putFailed _ _ _ => simp [hlen', hneed']
    | kept resp => simp [hlen', hneed']
    | written v resp =>
        refine ⟨by simp [hlen'], by simp [hneed'], by simp, ?_, ?_⟩
        · rintro rfl hresp
          obtain rfl : resp = [0] := Except.ok.inj hresp
          exact absurd hu decide_casw_ne
        · intro _ _ key hkey
          exact Function.update_of_ne hkey _ _

end RostamBench.Server.Sliced
