import RostamBench.Lib.Transition
import RostamBench.Lib.BigEndian
import RostamBench.Lib.BufWriter

/-!
The pipelined connection of `netkv/pipeline.go`: `pconn.call`, `pconn.fail` and
`pconn.readLoop`, with the server at the other end of the socket.

Any number of callers run `call` on one `pconn` while `readLoop` reads; `ι` is
the type of the invocations, so a goroutine that calls twice is two elements of
`ι`. Every place where the Go code can be preempted with an effect visible to
another goroutine is a program counter of its own, and an `Action` is one step
of one goroutine. Where the outcome is not the goroutine's to decide, such as
how many bytes the socket takes or whether a read fails, the action carries it.

A byte on the wire is tagged with the call that wrote it. The tag is not sent;
it says which request frame a byte belongs to, which is what the assumption
about the server is about: it consumes complete request frames in the order in
which they stand in the stream and answers each of them once. `popped`, what
was taken off `fifo` so far, and `sent`, the number of values put into each
result slot, are kept for the statements only: no step reads them.
-/

namespace RostamBench.Netkv.Pconn

open BigEndian BufWriter Transition

/-- `presp`; `dead` is the `errPConnDead` in its `err` field. -/
structure Presp where
  status : UInt8
  payload : Bytes
  dead : Bool
  deriving DecidableEq

/-- `presp{err: errPConnDead}`. -/
def Presp.connDead : Presp := { status := 0, payload := [], dead := true }

/-! ### Decoding a response -/

/-- What `readLoop` does with the body of a response frame. -/
inductive Parsed
  | response (status : UInt8) (payload : Bytes)
  /-- One of the two checks fails and the loop is left. -/
  | rejected
  /-- `body[5 : 5+plen]` has its bounds the wrong way round. -/
  | panicked
  deriving DecidableEq

/-- `binary.BigEndian.Uint32(body[1:5])`. -/
def plenOf (body : Bytes) : ℕ := natOf ((body.drop 1).take 4)

/-- The checks of `readLoop` on a body and the slice it takes. Both sides of
the second check are `uint32`, so `5+plen` wraps. -/
def parseBody (body : Bytes) : Parsed :=
  if body.length < 5 then .rejected
  else
    let stop := (5 + plenOf body) % 2 ^ 32
    if body.length % 2 ^ 32 < stop then .rejected
    else if 5 ≤ stop ∧ stop ≤ body.length then
      .response (body.headD 0) ((body.take stop).drop 5)
    else .panicked

/-- A response body a server may send: status, length and at least that many
payload bytes, in a frame whose length fits its own header. -/
def WellFormed (body : Bytes) : Prop :=
  5 ≤ body.length ∧ 5 + plenOf body ≤ body.length ∧ body.length < 2 ^ 32

instance (body : Bytes) : Decidable (WellFormed body) :=
  inferInstanceAs (Decidable (_ ∧ _))

theorem parseBody_wellFormed {body : Bytes} (h : WellFormed body) :
    parseBody body =
      .response (body.headD 0) ((body.take (5 + plenOf body)).drop 5) := by
  obtain ⟨hlen, hplen, hmax⟩ := h
  have hstop : (5 + plenOf body) % 2 ^ 32 = 5 + plenOf body :=
    Nat.mod_eq_of_lt (by omega)
  have hbody : body.length % 2 ^ 32 = body.length := Nat.mod_eq_of_lt hmax
  unfold parseBody
  rw [if_neg (by omega)]
  simp only [hstop, hbody]
  rw [if_neg (by omega), if_pos ⟨by omega, hplen⟩]

/-! ### Requests -/

/-- One invocation of `call`; a Go string is a byte string. -/
structure Request where
  op : Bytes
  args : Bytes

/-- What a connection is set up with: `dialPConn`'s `window`, the arguments of
every call, and `server.EncodeRequest`, which is not part of this repository. -/
structure Config (ι : Type*) where
  window : ℕ
  request : ι → Request
  encodeRequest : Bytes → Bytes → Bytes

variable {ι : Type*}

/-- `frame` of a call. -/
def Config.frame (cfg : Config ι) (i : ι) : Bytes :=
  cfg.encodeRequest (cfg.request i).op (cfg.request i).args

/-- `hdr` of a call: `PutUint32(hdr[:], uint32(len(frame)))`. -/
def Config.hdr (cfg : Config ι) (i : ι) : Bytes := bytesOf 4 (cfg.frame i).length

/-- Bytes written by call `i`. -/
def tag (i : ι) (bs : Bytes) : List (ι × UInt8) := bs.map fun b => (i, b)

/-- Everything call `i` writes, header and frame. -/
def Config.wireFrame (cfg : Config ι) (i : ι) : List (ι × UInt8) :=
  tag i (cfg.hdr i) ++ tag i (cfg.frame i)

/-! ### Program counters and state -/

/-- Where a caller is in `call`. The flags carry `err1`, then `err1 || err2`,
then all three. -/
inductive CallPc
  | start
  | lock
  | check
  | unlockDead
  | push
  | writeHdr
  | writeFrame (err : Bool)
  | flush (err : Bool)
  | unlock (err : Bool)
  | failCAS
  | failClose
  | recv
  | returned (r : Presp)
  deriving DecidableEq

/-- Where `readLoop` is. -/
inductive ReadPc (ι : Type*)
  | read
  | pop (r : Presp)
  | send (rc : ι) (r : Presp)
  | failCAS
  | failClose
  | drain
  | drainSend (rc : ι)
  | returned
  | panicked
  deriving DecidableEq

/-- A `pconn`, the socket under it, and the goroutines using it. The result
slot `rc` of a call is named by the call. -/
structure State (ι : Type*) where
  dead : Bool
  mu : Option ι
  fifo : List ι
  w : Writer (ι × UInt8)
  /-- The bytes the socket has taken. -/
  wire : List (ι × UInt8)
  /-- `c.Close()` has been called on this side. -/
  closed : Bool
  /-- How many bytes of the stream the server has consumed. -/
  served : ℕ
  /-- The server's responses, oldest first, each with the call it answers. -/
  answered : List (ι × Bytes)
  /-- How many responses `readLoop` has read in full. -/
  nread : ℕ
  /-- The value in each result slot. -/
  rc : ι → Option Presp
  /-- How many values were ever sent to each result slot. -/
  sent : ι → ℕ
  /-- The result slots taken off `fifo` so far, oldest first. -/
  popped : List ι
  call : ι → CallPc
  reader : ReadPc ι

/-- Every result slot ever pushed on `fifo`, oldest first. -/
def State.order (s : State ι) : List ι := s.popped ++ s.fifo

/-- A freshly dialled connection. -/
def State.initial : State ι where
  dead := false
  mu := none
  fifo := []
  w := { buf := [], err := false }
  wire := []
  closed := false
  served := 0
  answered := []
  nread := 0
  rc := fun _ => none
  sent := fun _ => 0
  popped := []
  call := fun _ => .start
  reader := .read

/-- One step of one goroutine, or of the server. -/
inductive Action (ι : Type*)
  | deadCheck (i : ι)
  | lock (i : ι)
  | deadCheckLocked (i : ι)
  | unlockDead (i : ι)
  | push (i : ι)
  | writeHdr (i : ι) (t : Transfer)
  | writeFrame (i : ι) (t : Transfer)
  | flush (i : ι) (t : Transfer)
  | unlock (i : ι)
  | callFailCAS (i : ι)
  | callFailClose (i : ι)
  | recv (i : ι)
  | answer (i : ι) (body : Bytes)
  | readFrame
  | readError
  | pop
  | send
  | readFailCAS
  | readFailClose
  | drainPop
  | drainSend
  | drainDone

/-! ### Steps -/

section Steps

variable [DecidableEq ι]

/-- The goroutine of call `i` goes to `pc`. -/
def State.goto (s : State ι) (i : ι) (pc : CallPc) : State ι :=
  { s with call := Function.update s.call i pc }

/-- Call `i` hands `p` to the buffered writer, which passes `t` of it on. -/
def State.writeOut (s : State ι) (p : List (ι × UInt8)) (t : Transfer) : State ι :=
  { s with w := s.w.write p t, wire := s.wire ++ s.w.passed p t }

/-- Every waiting place of the code: the mutex, a full `fifo`, an empty result
slot, an empty `fifo`, a full result slot. Everything else only asks that the
goroutine is at the statement. -/
def Config.Enabled (cfg : Config ι) (s : State ι) : Action ι → Prop
  | .deadCheck i => s.call i = .start
  | .lock i => s.call i = .lock ∧ s.mu = none
  | .deadCheckLocked i => s.call i = .check
  | .unlockDead i => s.call i = .unlockDead
  | .push i => s.call i = .push ∧ s.fifo.length < cfg.window
  | .writeHdr i t =>
      s.call i = .writeHdr ∧ s.w.CanWrite s.closed (tag i (cfg.hdr i)) t
  | .writeFrame i t =>
      (∃ err, s.call i = .writeFrame err) ∧
        s.w.CanWrite s.closed (tag i (cfg.frame i)) t
  | .flush i t => (∃ err, s.call i = .flush err) ∧ s.w.CanFlush s.closed t
  | .unlock i => ∃ err, s.call i = .unlock err
  | .callFailCAS i => s.call i = .failCAS
  | .callFailClose i => s.call i = .failClose
  | .recv i => s.call i = .recv ∧ s.rc i ≠ none
  -- The server consumes the next complete request frame and answers it.
  | .answer i body =>
      cfg.wireFrame i <+: s.wire.drop s.served ∧ WellFormed body
  | .readFrame => s.reader = .read ∧ s.nread < s.answered.length
  -- A read may fail at any time, whatever the server has sent.
  | .readError => s.reader = .read
  | .pop => (∃ r, s.reader = .pop r) ∧ s.fifo ≠ []
  | .send => ∃ i r, s.reader = .send i r ∧ s.rc i = none
  | .readFailCAS => s.reader = .failCAS
  | .readFailClose => s.reader = .failClose
  | .drainPop => s.reader = .drain ∧ s.fifo ≠ []
  | .drainSend => ∃ i, s.reader = .drainSend i ∧ s.rc i = none
  | .drainDone => s.reader = .drain ∧ s.fifo = []

instance (rd : ReadPc ι) : Decidable (∃ r, rd = .pop r) :=
  match rd with
  | .pop r => isTrue ⟨r, rfl⟩
  | .read | .send _ _ | .failCAS | .failClose | .drain | .drainSend _ | .returned
  | .panicked => isFalse (by simp)

instance (rd : ReadPc ι) (rc : ι → Option Presp) :
    Decidable (∃ i r, rd = .send i r ∧ rc i = none) :=
  match rd with
  | .send i _ => decidable_of_iff (rc i = none) (by simp)
  | .read | .pop _ | .failCAS | .failClose | .drain | .drainSend _ | .returned
  | .panicked => isFalse (by simp)

instance (rd : ReadPc ι) (rc : ι → Option Presp) :
    Decidable (∃ i, rd = .drainSend i ∧ rc i = none) :=
  match rd with
  | .drainSend i => decidable_of_iff (rc i = none) (by simp)
  | .read | .pop _ | .send _ _ | .failCAS | .failClose | .drain | .returned
  | .panicked => isFalse (by simp)

instance (cfg : Config ι) (s : State ι) (a : Action ι) : Decidable (cfg.Enabled s a) :=
  match a with
  | .deadCheck i | .deadCheckLocked i | .unlockDead i | .callFailCAS i
  | .callFailClose i => inferInstanceAs (Decidable (s.call i = _))
  | .lock i | .push i | .writeHdr i _ | .recv i =>
      inferInstanceAs (Decidable (s.call i = _ ∧ _))
  | .writeFrame i _ | .flush i _ =>
      inferInstanceAs (Decidable ((∃ _, s.call i = _) ∧ _))
  | .unlock i => inferInstanceAs (Decidable (∃ err, s.call i = .unlock err))
  | .answer _ _ => inferInstanceAs (Decidable (_ <+: _ ∧ _))
  | .readFrame | .drainPop | .drainDone => inferInstanceAs (Decidable (s.reader = _ ∧ _))
  | .readError | .readFailCAS | .readFailClose =>
      inferInstanceAs (Decidable (s.reader = _))
  | .pop => inferInstanceAs (Decidable ((∃ r, s.reader = .pop r) ∧ _))
  | .send => inferInstanceAs (Decidable (∃ i r, s.reader = .send i r ∧ s.rc i = none))
  | .drainSend => inferInstanceAs (Decidable (∃ i, s.reader = .drainSend i ∧ s.rc i = none))

/-- `<-p.fifo` yields the slot of call `i` and leaves `rest`. -/
def State.takeSlot (s : State ι) (i : ι) (rest : List ι) (pc : ReadPc ι) : State ι :=
  { s with fifo := rest, popped := s.popped ++ [i], reader := pc }

/-- `rc <- r` on the result slot of call `i`. -/
def State.sendTo (s : State ι) (i : ι) (r : Presp) (pc : ReadPc ι) : State ι :=
  { s with
    rc := Function.update s.rc i (some r)
    sent := Function.update s.sent i (s.sent i + 1)
    reader := pc }

/-- What each step does. The last lines of the matches are the states in which
the step is not enabled. -/
def Config.effect (cfg : Config ι) (s : State ι) : Action ι → State ι
  | .deadCheck i => s.goto i (if s.dead then .returned .connDead else .lock)
  | .lock i => { s.goto i .check with mu := some i }
  | .deadCheckLocked i => s.goto i (if s.dead then .unlockDead else .push)
  | .unlockDead i => { s.goto i (.returned .connDead) with mu := none }
  | .push i => { s.goto i .writeHdr with fifo := s.fifo ++ [i] }
  | .writeHdr i t =>
      let s' := s.writeOut (tag i (cfg.hdr i)) t
      s'.goto i (.writeFrame s'.w.err)
  | .writeFrame i t =>
      match s.call i with
      | .writeFrame err =>
          let s' := s.writeOut (tag i (cfg.frame i)) t
          s'.goto i (.flush (err || s'.w.err))
      | _ => s
  | .flush i t =>
      match s.call i with
      | .flush err =>
          let s' := s.writeOut [] t
          s'.goto i (.unlock (err || s'.w.err))
      | _ => s
  | .unlock i =>
      match s.call i with
      | .unlock err => { s.goto i (if err then .failCAS else .recv) with mu := none }
      | _ => s
  | .callFailCAS i =>
      if s.dead then s.goto i (.returned .connDead)
      else { s.goto i .failClose with dead := true }
  | .callFailClose i => { s.goto i (.returned .connDead) with closed := true }
  | .recv i =>
      match s.rc i with
      | some r => { s.goto i (.returned r) with rc := Function.update s.rc i none }
      | none => s
  | .answer i body =>
      { s with
        served := s.served + (cfg.wireFrame i).length
        answered := s.answered ++ [(i, body)] }
  | .readFrame =>
      match s.answered[s.nread]? with
      | some (_, body) =>
          let s' := { s with nread := s.nread + 1 }
          match parseBody body with
          | .response status payload =>
              { s' with reader := .pop { status := status, payload := payload, dead := false } }
          | .rejected => { s' with reader := .failCAS }
          | .panicked => { s' with reader := .panicked }
      | none => s
  | .readError => { s with reader := .failCAS }
  | .pop =>
      match s.reader, s.fifo with
      | .pop r, i :: rest => s.takeSlot i rest (.send i r)
      | _, _ => s
  | .send =>
      match s.reader with
      | .send i r => s.sendTo i r .read
      | _ => s
  -- The loser of the swap goes on to the drain at once, possibly before the
  -- winner has closed the socket.
  | .readFailCAS =>
      if s.dead then { s with reader := .drain }
      else { s with dead := true, reader := .failClose }
  | .readFailClose => { s with closed := true, reader := .drain }
  | .drainPop =>
      match s.fifo with
      | i :: rest => s.takeSlot i rest (.drainSend i)
      | [] => s
  | .drainSend =>
      match s.reader with
      | .drainSend i => s.sendTo i .connDead .drain
      | _ => s
  | .drainDone => { s with reader := .returned }

/-- The connection under every interleaving. -/
def Config.system (cfg : Config ι) : System (State ι) (Action ι) where
  init s := s = .initial
  enabled := cfg.Enabled
  effect := cfg.effect

instance (cfg : Config ι) (s : State ι) (a : Action ι) :
    Decidable (cfg.system.enabled s a) :=
  inferInstanceAs (Decidable (cfg.Enabled s a))

/-! ### What a step can do

The same steps with every branch taken: one constructor for each way a guard
and a branch of the code can go. Every invariant below is proved by cases on
this relation, and only `Config.step_effect` looks into `Config.effect`. -/

inductive Config.Step (cfg : Config ι) (s : State ι) : State ι → Prop
  | startDead {i : ι} (hi : s.call i = .start) (hd : s.dead = true) :
      cfg.Step s (s.goto i (.returned .connDead))
  | startLive {i : ι} (hi : s.call i = .start) (hd : s.dead = false) :
      cfg.Step s (s.goto i .lock)
  | lock {i : ι} (hi : s.call i = .lock) (hmu : s.mu = none) :
      cfg.Step s { s.goto i .check with mu := some i }
  | checkDead {i : ι} (hi : s.call i = .check) (hd : s.dead = true) :
      cfg.Step s (s.goto i .unlockDead)
  | checkLive {i : ι} (hi : s.call i = .check) (hd : s.dead = false) :
      cfg.Step s (s.goto i .push)
  | unlockDead {i : ι} (hi : s.call i = .unlockDead) :
      cfg.Step s { s.goto i (.returned .connDead) with mu := none }
  | push {i : ι} (hi : s.call i = .push) (hroom : s.fifo.length < cfg.window) :
      cfg.Step s { s.goto i .writeHdr with fifo := s.fifo ++ [i] }
  | writeHdr {i : ι} {t : Transfer} (hi : s.call i = .writeHdr)
      (ht : s.w.CanWrite s.closed (tag i (cfg.hdr i)) t) :
      cfg.Step s ((s.writeOut (tag i (cfg.hdr i)) t).goto i
        (.writeFrame (s.w.write (tag i (cfg.hdr i)) t).err))
  | writeFrame {i : ι} {t : Transfer} {err : Bool} (hi : s.call i = .writeFrame err)
      (ht : s.w.CanWrite s.closed (tag i (cfg.frame i)) t) :
      cfg.Step s ((s.writeOut (tag i (cfg.frame i)) t).goto i
        (.flush (err || (s.w.write (tag i (cfg.frame i)) t).err)))
  | flush {i : ι} {t : Transfer} {err : Bool} (hi : s.call i = .flush err)
      (ht : s.w.CanFlush s.closed t) :
      cfg.Step s ((s.writeOut [] t).goto i (.unlock (err || (s.w.write [] t).err)))
  | unlockErr {i : ι} (hi : s.call i = .unlock true) :
      cfg.Step s { s.goto i .failCAS with mu := none }
  | unlockOk {i : ι} (hi : s.call i = .unlock false) :
      cfg.Step s { s.goto i .recv with mu := none }
  | casLost {i : ι} (hi : s.call i = .failCAS) (hd : s.dead = true) :
      cfg.Step s (s.goto i (.returned .connDead))
  | casWon {i : ι} (hi : s.call i = .failCAS) (hd : s.dead = false) :
      cfg.Step s { s.goto i .failClose with dead := true }
  | close {i : ι} (hi : s.call i = .failClose) :
      cfg.Step s { s.goto i (.returned .connDead) with closed := true }
  | recv {i : ι} {r : Presp} (hi : s.call i = .recv) (hr : s.rc i = some r) :
      cfg.Step s { s.goto i (.returned r) with rc := Function.update s.rc i none }
  | answer {i : ι} {body : Bytes} (hframe : cfg.wireFrame i <+: s.wire.drop s.served)
      (hbody : WellFormed body) :
      cfg.Step s { s with
        served := s.served + (cfg.wireFrame i).length
        answered := s.answered ++ [(i, body)] }
  | readResponse {i : ι} {body : Bytes} {status : UInt8} {payload : Bytes}
      (hr : s.reader = .read) (hnext : s.answered[s.nread]? = some (i, body))
      (hparse : parseBody body = .response status payload) :
      cfg.Step s { s with
        nread := s.nread + 1
        reader := .pop { status := status, payload := payload, dead := false } }
  | readRejected {i : ι} {body : Bytes} (hr : s.reader = .read)
      (hnext : s.answered[s.nread]? = some (i, body)) (hparse : parseBody body = .rejected) :
      cfg.Step s { s with nread := s.nread + 1, reader := .failCAS }
  | readPanicked {i : ι} {body : Bytes} (hr : s.reader = .read)
      (hnext : s.answered[s.nread]? = some (i, body)) (hparse : parseBody body = .panicked) :
      cfg.Step s { s with nread := s.nread + 1, reader := .panicked }
  | readError (hr : s.reader = .read) : cfg.Step s { s with reader := .failCAS }
  | pop {r : Presp} {i : ι} {rest : List ι} (hr : s.reader = .pop r)
      (hfifo : s.fifo = i :: rest) : cfg.Step s (s.takeSlot i rest (.send i r))
  | send {i : ι} {r : Presp} (hr : s.reader = .send i r) (hrc : s.rc i = none) :
      cfg.Step s (s.sendTo i r .read)
  | readCASLost (hr : s.reader = .failCAS) (hd : s.dead = true) :
      cfg.Step s { s with reader := .drain }
  | readCASWon (hr : s.reader = .failCAS) (hd : s.dead = false) :
      cfg.Step s { s with dead := true, reader := .failClose }
  | readClose (hr : s.reader = .failClose) :
      cfg.Step s { s with closed := true, reader := .drain }
  | drainPop {i : ι} {rest : List ι} (hr : s.reader = .drain)
      (hfifo : s.fifo = i :: rest) : cfg.Step s (s.takeSlot i rest (.drainSend i))
  | drainSend {i : ι} (hr : s.reader = .drainSend i) (hrc : s.rc i = none) :
      cfg.Step s (s.sendTo i .connDead .drain)
  | drainDone (hr : s.reader = .drain) (hfifo : s.fifo = []) :
      cfg.Step s { s with reader := .returned }

theorem Config.step_effect {cfg : Config ι} {s : State ι} {a : Action ι}
    (ha : cfg.Enabled s a) : cfg.Step s (cfg.effect s a) := by
  cases a with
  | deadCheck i =>
      cases hd : s.dead with
      | true => simpa [Config.effect, hd] using Config.Step.startDead ha hd
      | false => simpa [Config.effect, hd] using Config.Step.startLive ha hd
  | lock i => exact .lock ha.1 ha.2
  | deadCheckLocked i =>
      cases hd : s.dead with
      | true => simpa [Config.effect, hd] using Config.Step.checkDead ha hd
      | false => simpa [Config.effect, hd] using Config.Step.checkLive ha hd
  | unlockDead i => exact .unlockDead ha
  | push i => exact .push ha.1 ha.2
  | writeHdr i t => exact .writeHdr ha.1 ha.2
  | writeFrame i t =>
      obtain ⟨⟨err, hi⟩, ht⟩ := ha
      simp only [Config.effect, hi]
      exact .writeFrame hi ht
  | flush i t =>
      obtain ⟨⟨err, hi⟩, ht⟩ := ha
      simp only [Config.effect, hi]
      exact .flush hi ht
  | unlock i =>
      obtain ⟨err, hi⟩ := ha
      cases err with
      | true => simpa [Config.effect, hi] using Config.Step.unlockErr hi
      | false => simpa [Config.effect, hi] using Config.Step.unlockOk hi
  | callFailCAS i =>
      cases hd : s.dead with
      | true => simpa [Config.effect, hd] using Config.Step.casLost ha hd
      | false => simpa [Config.effect, hd] using Config.Step.casWon ha hd
  | callFailClose i => exact .close ha
  | recv i =>
      obtain ⟨r, hr⟩ := Option.ne_none_iff_exists'.mp ha.2
      simpa only [Config.effect, hr] using Config.Step.recv ha.1 hr
  | answer i body => exact .answer ha.1 ha.2
  | readFrame =>
      obtain ⟨hr, hlt⟩ := ha
      have hnext := List.getElem?_eq_getElem hlt
      cases hparse : parseBody (s.answered[s.nread]).2 with
      | response status payload =>
          simpa only [Config.effect, hnext, hparse] using
            Config.Step.readResponse hr hnext hparse
      | rejected =>
          simpa only [Config.effect, hnext, hparse] using
            Config.Step.readRejected hr hnext hparse
      | panicked =>
          simpa only [Config.effect, hnext, hparse] using
            Config.Step.readPanicked hr hnext hparse
  | readError => exact .readError ha
  | pop =>
      obtain ⟨⟨r, hr⟩, hfifo⟩ := ha
      obtain ⟨i, rest, hcons⟩ := List.exists_cons_of_ne_nil hfifo
      simpa only [Config.effect, hr, hcons] using Config.Step.pop hr hcons
  | send =>
      obtain ⟨i, r, hr, hrc⟩ := ha
      simpa only [Config.effect, hr] using Config.Step.send hr hrc
  | readFailCAS =>
      cases hd : s.dead with
      | true => simpa [Config.effect, hd] using Config.Step.readCASLost ha hd
      | false => simpa [Config.effect, hd] using Config.Step.readCASWon ha hd
  | readFailClose => exact .readClose ha
  | drainPop =>
      obtain ⟨hr, hfifo⟩ := ha
      obtain ⟨i, rest, hcons⟩ := List.exists_cons_of_ne_nil hfifo
      simpa only [Config.effect, hcons] using Config.Step.drainPop hr hcons
  | drainSend =>
      obtain ⟨i, hr, hrc⟩ := ha
      simpa only [Config.effect, hr] using Config.Step.drainSend hr hrc
  | drainDone => exact .drainDone ha.1 ha.2

/-- What the initial state has and every step keeps is so in every reachable
state. -/
theorem Config.reachable_invariant {cfg : Config ι} {I : State ι → Prop}
    (hinit : I .initial)
    (hstep : ∀ {s s'}, cfg.system.Reachable s → I s → cfg.Step s s' → I s')
    {s : State ι} (hs : cfg.system.Reachable s) : I s :=
  hs.invariant (fun _ h => h ▸ hinit)
    (fun _ _ hr hI ha => hstep hr hI (cfg.step_effect ha))

end Steps

end RostamBench.Netkv.Pconn
