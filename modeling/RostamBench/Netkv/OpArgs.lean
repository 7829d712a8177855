import RostamBench.Netkv.PairedOps
import RostamBench.Server.Slices

/-!
The arguments of the custom ops, from the client's encoders to the server's
parsers.

`rostamEngine` appends its fields to `wire.EncodeKeyArgs(key)`; a handler cuts them
off again with the slices of `Server.Slices`. Both ends pass an `int64` through a
big-endian `uint64`, which loses nothing, so a parser gives back what was encoded.

`getI64` and `handleCASWrite` read a stored counter by the same rule. A `casw` whose
expected value was read from the value it meets is therefore never refused: it
writes and answers `1`, or `tx` fails.
-/

namespace RostamBench.Netkv.OpArgs

open BigEndian Effects CellProg Server PairedOps CasIncr

variable {key : Bytes}

/-! ### The parsers on well-formed arguments -/

theorem getInt64_putInt64_pair (a b : Int64) :
    getInt64 (putInt64 a ++ putInt64 b) = a ∧
      getInt64 ((putInt64 a ++ putInt64 b).drop 8) = b := by
  refine ⟨getInt64_putInt64_append a _, ?_⟩
  rw [List.drop_left' (length_putInt64 a)]
  simpa using getInt64_putInt64_append b []

theorem parsePair_stdArgs (op : String) (hkey : key.length < 2 ^ 16) (a b : Int64) :
    Sliced.parsePair op (stdArgs key (putInt64 a ++ putInt64 b)) = some (.ok (key, a, b)) := by
  have hneed : 16 ≤ (putInt64 a ++ putInt64 b).length := by
    simp [length_putInt64]
  obtain ⟨hfst, hsnd⟩ := getInt64_putInt64_pair a b
  rw [Sliced.parsePair_eq, splitArgs_stdArgs op hkey hneed]
  show some (Except.ok (key, getInt64 (putInt64 a ++ putInt64 b), _)) = _
  rw [hfst, hsnd]

theorem parseSuffix_stdArgs (op : String) (hkey : key.length < 2 ^ 16) (suffix : Bytes) :
    Sliced.parseSuffix op (stdArgs key suffix) = some (.ok (key, suffix)) := by
  rw [Sliced.parseSuffix_eq, splitArgs_stdArgs op hkey (Nat.zero_le _)]

/-- The offset after the key is the end of arguments without a payload. -/
theorem parseKey_stdArgs (op : String) (hkey : key.length < 2 ^ 16) :
    Sliced.parseKey op 0 (stdArgs key []) = some (.ok (key, (stdArgs key []).length)) := by
  have hlen : (stdArgs key []).length = 2 + key.length := by
    simp [stdArgs]
  rw [Sliced.parseKey_eq, splitArgs_stdArgs op hkey (Nat.zero_le _), keyLen_stdArgs hkey, hlen]
  rfl

/-! ### The handlers on well-formed arguments -/

/-- A handler updates the key, and decides with the payload. -/
theorem sliced_stdArgs (o : Sliced.CustomOp) (hkey : key.length < 2 ^ 16) {payload : Bytes}
    (hneed : o.need ≤ payload.length) :
    o.sliced (stdArgs key payload) = Sliced.returning (Server.update key (o.decide payload)) := by
  rw [Sliced.handler_eq, Sliced.CustomOp.handler_eq_updateArgs, updateArgs,
    splitArgs_stdArgs o.name hkey hneed]

theorem handleAtomicRecordUpdate_stdArgs (hkey : key.length < 2 ^ 16) (streak points : Int64) :
    Sliced.handleAtomicRecordUpdate (stdArgs key (putInt64 streak ++ putInt64 points)) =
      Sliced.returning (Server.update key fun cur =>
        let out := encodeRecord ((decodeRecord cur).fold streak points)
        .write out out) := by
  obtain ⟨hstreak, hpoints⟩ := getInt64_putInt64_pair streak points
  have hneed : Sliced.CustomOp.aru.need ≤ (putInt64 streak ++ putInt64 points).length := by
    simp [length_putInt64, Sliced.CustomOp.need]
  refine (sliced_stdArgs .aru hkey hneed).trans ?_
  simp only [Sliced.CustomOp.decide, hstreak, hpoints]

theorem handleCASWrite_stdArgs (hkey : key.length < 2 ^ 16) (expected newVal : Int64) :
    Sliced.handleCASWrite (stdArgs key (putInt64 expected ++ putInt64 newVal)) =
      Sliced.returning (Server.update key fun cur =>
        if decodeCounter cur ≠ expected then .keep [0] else .write (putInt64 newVal) [1]) := by
  obtain ⟨hexpected, hnew⟩ := getInt64_putInt64_pair expected newVal
  have hneed : Sliced.CustomOp.casw.need ≤ (putInt64 expected ++ putInt64 newVal).length := by
    simp [length_putInt64, Sliced.CustomOp.need]
  refine (sliced_stdArgs .casw hkey hneed).trans ?_
  simp only [Sliced.CustomOp.decide, hexpected, hnew]

/-! ### The stored counter -/

/-- Client and server read the same counter off a stored value, be it a counter or
not. -/
theorem counterOf_eq_getI64 (v : Bytes) : Sliced.counterOf (some v) = some (getI64 v) := by
  rw [Sliced.counterOf_eq, decodeCounter, getI64]
  by_cases hlen : 8 ≤ v.length
  · have hnot : ¬ v.length < 8 := by omega
    rw [if_pos hlen, if_neg hnot]
  · have hshort : v.length < 8 := by omega
    rw [if_neg hlen, if_pos hshort]

theorem execGet_eq_ok {cfg : Config} {cells : Bytes → Option Bytes} {res : Bytes}
    (h : cfg.execGet cells = .ok res) : cells cfg.key = some res := by
  rw [Config.execGet] at h
  split at h
  · rename_i v hv
    rw [hv, Except.ok.inj h]
  · cases h

/-- A `casw` that expects what is stored decides to write. -/
theorem run_casw_settles (tx : TxContext) {cfg : Config} (hcfg : cfg.WellFormed)
    {cells : Bytes → Option Bytes} {v : Bytes} (hv : cells cfg.key = some v) :
    ∃ cells' resp,
      tx.ops.run (Sliced.handleCASWrite (cfg.caswArgs (getI64 v))) cells = (cells', some resp) ∧
      Sliced.Settles tx cells cfg.key (.write (putInt64 (getI64 v + 1)) [1]) (cells', resp) := by
  have hargs : cfg.caswArgs (getI64 v) =
      stdArgs cfg.key (putInt64 (getI64 v) ++ putInt64 (getI64 v + 1)) := by
    rw [Config.caswArgs, hcfg.encode, stdArgs]
  have hcounter : decodeCounter (some v) = getI64 v :=
    Option.some.inj ((Sliced.counterOf_eq (some v)).symm.trans (counterOf_eq_getI64 v))
  have hprog := handleCASWrite_stdArgs hcfg.length (getI64 v) (getI64 v + 1)
  have hsettles := Sliced.run_update_settles tx cfg.key (fun cur =>
    if decodeCounter cur ≠ getI64 v then .keep [0]
    else .write (putInt64 (getI64 v + 1)) [1]) cells
  rw [hv, hcounter, if_neg (not_not.mpr rfl)] at hsettles
  refine ⟨_, _, ?_, hsettles⟩
  rw [hargs, hprog, Sliced.returning, CellOps.run, Prog.run_bind]
  rfl

/-- What the client encodes, the server's parsers give back and its handlers work with,
and a `casw` that follows its `getI64` answers `1` unless `tx` fails. -/
theorem op_args_agree {x : Wire} (hx : x.WellFormed) (hkey : key.length < 2 ^ 16) :
    (∀ streak points, ∃ args,
      x.call (.atomicUpdate key streak points) = some { name := "aru", args := args } ∧
      Sliced.parsePair "aru" args = some (.ok (key, streak, points)) ∧
      Sliced.handleAtomicRecordUpdate args = Sliced.returning (Server.update key fun cur =>
        let out := encodeRecord ((decodeRecord cur).fold streak points)
        .write out out)) ∧
    (∀ cur, Sliced.parsePair "casw" (Config.caswArgs ⟨x.encodeKeyArgs, key⟩ cur) =
        some (.ok (key, cur, cur + 1)) ∧
      Sliced.handleCASWrite (Config.caswArgs ⟨x.encodeKeyArgs, key⟩ cur) =
        Sliced.returning (Server.update key fun v =>
          if decodeCounter v ≠ cur then .keep [0] else .write (putInt64 (cur + 1)) [1])) ∧
    (∀ suffix, ∃ args, x.call (.append key suffix) = some { name := "app", args := args } ∧
      Sliced.parseSuffix "app" args = some (.ok (key, suffix)) ∧
      Sliced.handleAppend args = Sliced.returning (Server.update key fun cur =>
        .write (cur.getD [] ++ suffix) [])) ∧
    (∃ args, x.call (.shift key) = some { name := "shft", args := args } ∧
      Sliced.parseKey "shft" 0 args = some (.ok (key, args.length)) ∧
      Sliced.handleShift args = Sliced.returning (Server.update key fun cur =>
        .write (putUint64 (decodeMask cur <<< 1 ||| 1)) [])) ∧
    (∀ v, Sliced.counterOf (some v) = some (getI64 v)) ∧
    ∀ (tx : TxContext) (cells : Bytes → Option Bytes) (res : Bytes),
      Config.execGet ⟨x.encodeKeyArgs, key⟩ cells = .ok res →
      ∃ cells' resp, tx.ops.run (Sliced.handleCASWrite
          (Config.caswArgs ⟨x.encodeKeyArgs, key⟩ (getI64 res))) cells = (cells', some resp) ∧
        (resp = .ok [1] ∧
            cells' = Function.update cells key (some (putInt64 (getI64 res + 1))) ∨
          ∃ msg, resp = .error (.tx (.failed msg)) ∧ cells' = cells ∧
            (tx.getErr key (some res) = some msg ∨
              tx.putErr key (some res) (putInt64 (getI64 res + 1)) = some msg)) := by
  have hargs (payload : Bytes) : x.encodeKeyArgs key ++ payload = stdArgs key payload := by
    rw [hx key hkey, stdArgs]
  refine ⟨?_, ?_, ?_, ?_, counterOf_eq_getI64, ?_⟩
  · intro streak points
    refine ⟨_, rfl, ?_⟩
    rw [hargs]
    exact ⟨parsePair_stdArgs "aru" hkey streak points,
      handleAtomicRecordUpdate_stdArgs hkey streak points⟩
  · intro cur
    rw [Config.caswArgs, hargs]
    exact ⟨parsePair_stdArgs "casw" hkey cur (cur + 1), handleCASWrite_stdArgs hkey cur (cur + 1)⟩
  · intro suffix
    refine ⟨_, rfl, ?_⟩
    rw [hargs]
    exact ⟨parseSuffix_stdArgs "app" hkey suffix, sliced_stdArgs .app hkey (Nat.zero_le _)⟩
  · refine ⟨_, rfl, ?_⟩
    rw [← List.append_nil (x.encodeKeyArgs key), hargs]
    exact ⟨parseKey_stdArgs "shft" hkey, sliced_stdArgs .shft hkey (Nat.zero_le _)⟩
  · intro tx cells res hget
    have hcfg : Config.WellFormed ⟨x.encodeKeyArgs, key⟩ := ⟨hx key hkey, hkey⟩
    have hv : cells key = some res := execGet_eq_ok hget
    obtain ⟨cells', resp, hrun, hsettles⟩ := run_casw_settles tx hcfg hv
    refine ⟨cells', resp, hrun, ?_⟩
    cases hsettles with
    | getFailed _ h => exact Or.inr ⟨_, rfl, rfl, Or.inl (hv ▸ h)⟩
    | putFailed _ _ h => exact Or.inr ⟨_, rfl, rfl, Or.inr (hv ▸ h)⟩
    | written _ _ => exact Or.inl ⟨rfl, rfl⟩

/-- A key of one byte in the std wire format. -/
theorem op_args_agree_one_byte :
    (∃ args, stdWire.call (.atomicUpdate [7] (-1) 10) = some { name := "aru", args := args } ∧
      Sliced.parsePair "aru" args = some (.ok ([7], -1, 10)) ∧
      Sliced.handleAtomicRecordUpdate args = Sliced.returning (Server.update [7] fun cur =>
        let out := encodeRecord ((decodeRecord cur).fold (-1) 10)
        .write out out)) ∧
    Sliced.counterOf (some [1, 2]) = some (getI64 [1, 2]) := by
  have hagree := op_args_agree stdWire_wellFormed (show [7].length < 2 ^ 16 by decide)
  exact ⟨hagree.1 (-1) 10, hagree.2.2.2.2.1 [1, 2]⟩

end RostamBench.Netkv.OpArgs
