import RostamBench.Netkv.Pconn
import Mathlib.Data.List.Nodup

/-!
The order invariant of the pipelined connection: the byte stream is the
concatenation of the request frames in the order in which their result slots
were pushed on `fifo`.

Three facts make it up. `LockInv` is mutual exclusion and which calls have
pushed. `StreamInv` says that, until the first write error, the bytes on the
wire, the bytes buffered and the bytes the holder of `mu` has still to write
are together exactly the frames of the pushes so far; after an error the wire
is frozen at a prefix of them. `ServerInv` follows: the calls the server has
answered are the first pushes, in order.
-/

namespace RostamBench.Netkv.Pconn

open BigEndian BufWriter Transition

variable {ι : Type*} [DecidableEq ι] {cfg : Config ι} {s s' : State ι} {i : ι}
  {pc : CallPc}

/-- The caller holds `mu`. -/
def CallPc.critical : CallPc → Bool
  | .check | .unlockDead | .push | .writeHdr | .writeFrame _ | .flush _
  | .unlock _ => true
  | .start | .lock | .failCAS | .failClose | .recv | .returned _ => false

/-- The caller has not pushed its result slot yet. -/
def CallPc.early : CallPc → Bool
  | .start | .lock | .check | .unlockDead | .push => true
  | .writeHdr | .writeFrame _ | .flush _ | .unlock _ | .failCAS | .failClose
  | .recv | .returned _ => false

/-- The caller has pushed its result slot and has not returned. -/
def CallPc.late : CallPc → Bool
  | .writeHdr | .writeFrame _ | .flush _ | .unlock _ | .failCAS | .failClose
  | .recv => true
  | .start | .lock | .check | .unlockDead | .push | .returned _ => false

/-- The caller has been told of a write error. -/
def CallPc.sawErr : CallPc → Bool
  | .writeFrame err | .flush err | .unlock err => err
  | .failCAS | .failClose => true
  | .start | .lock | .check | .unlockDead | .push | .writeHdr | .recv
  | .returned _ => false

/-- What call `i` has still to hand to the buffered writer. -/
def CallPc.pending (cfg : Config ι) (i : ι) : CallPc → List (ι × UInt8)
  | .writeHdr => cfg.wireFrame i
  | .writeFrame _ => tag i (cfg.frame i)
  | .start | .lock | .check | .unlockDead | .push | .flush _ | .unlock _
  | .failCAS | .failClose | .recv | .returned _ => []

/-! ### The mutex and the pushes -/

structure LockInv (cfg : Config ι) (s : State ι) : Prop where
  mutex : ∀ i, s.mu = some i ↔ (s.call i).critical = true
  early : ∀ i, (s.call i).early = true → i ∉ s.order
  late : ∀ i, (s.call i).late = true → i ∈ s.order
  nodup : s.order.Nodup
  cap : s.fifo.length ≤ cfg.window

omit [DecidableEq ι] in
theorem LockInv.of_eq (h : LockInv cfg s) (hmu : s'.mu = s.mu)
    (hcall : s'.call = s.call) (horder : s'.order = s.order)
    (hcap : s'.fifo.length ≤ s.fifo.length) : LockInv cfg s' where
  mutex := by rw [hmu, hcall]; exact h.mutex
  early := by rw [hcall, horder]; exact h.early
  late := by rw [hcall, horder]; exact h.late
  nodup := by rw [horder]; exact h.nodup
  cap := hcap.trans h.cap

/-- A caller moves without passing `Lock`, `Unlock` or the push. -/
theorem LockInv.goto (h : LockInv cfg s)
    (hc : pc.critical = (s.call i).critical)
    (he : pc.early = true → (s.call i).early = true)
    (hl : pc.late = true → (s.call i).late = true) :
    LockInv cfg (s.goto i pc) where
  mutex j := by
    by_cases hj : j = i
    · subst hj; simpa [State.goto, hc] using h.mutex j
    · simpa [State.goto, hj] using h.mutex j
  early j hearly := by
    by_cases hj : j = i
    · subst hj; exact h.early j (he (by simpa [State.goto] using hearly))
    · exact h.early j (by simpa [State.goto, hj] using hearly)
  late j hlate := by
    by_cases hj : j = i
    · subst hj; exact h.late j (hl (by simpa [State.goto] using hlate))
    · exact h.late j (by simpa [State.goto, hj] using hlate)
  nodup := h.nodup
  cap := h.cap

theorem LockInv.lock (h : LockInv cfg s) (hi : s.call i = .lock) (hmu : s.mu = none) :
    LockInv cfg { s.goto i .check with mu := some i } where
  mutex j := by
    by_cases hj : j = i
    · subst hj; simp [State.goto, CallPc.critical]
    · have hnot := h.mutex j
      simp only [hmu, reduceCtorEq, false_iff, Bool.not_eq_true] at hnot
      simp [State.goto, hj, hnot, Ne.symm hj]
  early j hearly := by
    by_cases hj : j = i
    · subst hj; exact h.early j (by rw [hi]; rfl)
    · exact h.early j (by simpa [State.goto, hj] using hearly)
  late j hlate := by
    by_cases hj : j = i
    · subst hj; simp [State.goto, CallPc.late] at hlate
    · exact h.late j (by simpa [State.goto, hj] using hlate)
  nodup := h.nodup
  cap := h.cap

theorem LockInv.release (h : LockInv cfg s) (hi : (s.call i).critical = true)
    (hc : pc.critical = false) (he : pc.early = true → (s.call i).early = true)
    (hl : pc.late = true → (s.call i).late = true) :
    LockInv cfg { s.goto i pc with mu := none } where
  mutex j := by
    by_cases hj : j = i
    · subst hj; simp [State.goto, hc]
    · have hother : (s.call j).critical = false := by
        by_contra hcrit
        have hi' := (h.mutex i).mpr hi
        have hj' := (h.mutex j).mpr (by simpa using hcrit)
        exact hj (Option.some.inj (hj'.symm.trans hi'))
      simp [State.goto, hj, hother]
  early j hearly := by
    by_cases hj : j = i
    · subst hj; exact h.early j (he (by simpa [State.goto] using hearly))
    · exact h.early j (by simpa [State.goto, hj] using hearly)
  late j hlate := by
    by_cases hj : j = i
    · subst hj; exact h.late j (hl (by simpa [State.goto] using hlate))
    · exact h.late j (by simpa [State.goto, hj] using hlate)
  nodup := h.nodup
  cap := h.cap

theorem LockInv.push (h : LockInv cfg s) (hi : s.call i = .push)
    (hroom : s.fifo.length < cfg.window) :
    LockInv cfg { s.goto i .writeHdr with fifo := s.fifo ++ [i] } where
  mutex j := by
    by_cases hj : j = i
    · subst hj; simpa [State.goto, hi, CallPc.critical] using h.mutex j
    · simpa [State.goto, hj] using h.mutex j
  early j hearly := by
    by_cases hj : j = i
    · subst hj; simp [State.goto, CallPc.early] at hearly
    · have hnot := h.early j (by simpa [State.goto, hj] using hearly)
      simpa [State.order, hj, State.goto] using hnot
  late j hlate := by
    by_cases hj : j = i
    · subst hj; simp [State.order]
    · have hmem := h.late j (by simpa [State.goto, hj] using hlate)
      rw [State.order, List.mem_append] at hmem
      rcases hmem with hmem | hmem <;> simp [State.order, State.goto, hmem]
  nodup := by
    have hnot := h.early i (by rw [hi]; rfl)
    have hord : State.order { s.goto i .writeHdr with fifo := s.fifo ++ [i] } =
        s.order ++ [i] := by simp [State.order, State.goto]
    rw [hord]
    exact List.nodup_append.mpr ⟨h.nodup, List.nodup_singleton i, by
      intro a ha b hb
      obtain rfl := List.mem_singleton.mp hb
      rintro rfl
      exact hnot ha⟩
  cap := by simpa using Nat.succ_le_of_lt hroom

omit [DecidableEq ι] in
theorem order_takeSlot (s : State ι) {rest : List ι} (hfifo : s.fifo = i :: rest)
    (rpc : ReadPc ι) : (s.takeSlot i rest rpc).order = s.order := by
  simp [State.order, State.takeSlot, hfifo]

/-- Every step keeps the mutex invariant: only `Lock`, the unlocks and the push
do more than move a caller inside its own class of program counters. -/
theorem LockInv.step (h : LockInv cfg s) (hstep : cfg.Step s s') : LockInv cfg s' := by
  cases hstep with
  | startDead hi _ | casLost hi _ =>
      exact h.goto (by rw [hi]; rfl) (by simp [CallPc.early]) (by simp [CallPc.late])
  | startLive hi _ | checkDead hi _ | checkLive hi _ =>
      exact h.goto (by rw [hi]; rfl) (by rw [hi]; simp [CallPc.early]) (by simp [CallPc.late])
  | lock hi hmu => exact h.lock hi hmu
  | unlockDead hi =>
      exact h.release (by rw [hi]; rfl) rfl (by simp [CallPc.early]) (by simp [CallPc.late])
  | push hi hroom => exact h.push hi hroom
  | writeHdr hi _ | writeFrame hi _ | flush hi _ =>
      refine LockInv.goto (h.of_eq rfl rfl rfl le_rfl) ?_ (by simp [CallPc.early]) ?_
      · simp [State.writeOut, hi, CallPc.critical]
      · simp [State.writeOut, hi, CallPc.late]
  | unlockErr hi | unlockOk hi =>
      exact h.release (by rw [hi]; rfl) rfl (by simp [CallPc.early])
        (by rw [hi]; simp [CallPc.late])
  | @casWon i hi _ =>
      have hgoto : LockInv cfg (s.goto i .failClose) :=
        h.goto (by rw [hi]; rfl) (by simp [CallPc.early]) (by rw [hi]; simp [CallPc.late])
      exact hgoto.of_eq rfl rfl rfl le_rfl
  | @close i hi =>
      have hgoto : LockInv cfg (s.goto i (.returned .connDead)) :=
        h.goto (by rw [hi]; rfl) (by simp [CallPc.early]) (by simp [CallPc.late])
      exact hgoto.of_eq rfl rfl rfl le_rfl
  | @recv i r hi _ =>
      have hgoto : LockInv cfg (s.goto i (.returned r)) :=
        h.goto (by rw [hi]; rfl) (by simp [CallPc.early]) (by simp [CallPc.late])
      exact hgoto.of_eq rfl rfl rfl le_rfl
  | pop _ hfifo | drainPop _ hfifo =>
      exact h.of_eq rfl rfl (order_takeSlot s hfifo _) (by simp [State.takeSlot, hfifo])
  | answer | readResponse | readRejected | readPanicked | readError | send | readCASLost
  | readCASWon | readClose | drainSend | drainDone => exact h.of_eq rfl rfl rfl le_rfl

theorem LockInv.reachable (hs : cfg.system.Reachable s) : LockInv cfg s := by
  refine cfg.reachable_invariant ⟨?_, ?_, ?_, ?_, ?_⟩ (fun _ h => h.step) hs <;>
    simp [State.initial, State.order, CallPc.critical, CallPc.late]

/-! ### The byte stream -/

/-- The frames of a list of calls, one after the other. -/
def Config.stream (cfg : Config ι) (order : List ι) : List (ι × UInt8) :=
  order.flatMap cfg.wireFrame

omit [DecidableEq ι] in
theorem Config.stream_append (cfg : Config ι) (l l' : List ι) :
    cfg.stream (l ++ l') = cfg.stream l ++ cfg.stream l' := by
  simp [Config.stream]

structure StreamInv (cfg : Config ι) (s : State ι) : Prop where
  held : s.w.err = false → ∀ i, s.mu = some i →
    s.wire ++ s.w.buf ++ (s.call i).pending cfg i = cfg.stream s.order
  free : s.w.err = false → s.mu = none → s.wire ++ s.w.buf = cfg.stream s.order
  pre : s.wire <+: cfg.stream s.order
  told : ∀ i, (s.call i).sawErr = true → s.w.err = true

omit [DecidableEq ι] in
theorem StreamInv.of_eq (h : StreamInv cfg s) (hw : s'.w = s.w) (hwire : s'.wire = s.wire)
    (hmu : s'.mu = s.mu) (hcall : s'.call = s.call) (horder : s'.order = s.order) :
    StreamInv cfg s' where
  held := by rw [hw, hwire, hmu, hcall, horder]; exact h.held
  free := by rw [hw, hwire, hmu, horder]; exact h.free
  pre := by rw [hwire, horder]; exact h.pre
  told := by rw [hw, hcall]; exact h.told

theorem StreamInv.goto (h : StreamInv cfg s)
    (hp : pc.pending cfg i = (s.call i).pending cfg i)
    (ht : pc.sawErr = true → s.w.err = true) : StreamInv cfg (s.goto i pc) where
  held herr j hj := by
    by_cases hji : j = i
    · subst hji
      simpa [State.goto, State.order, hp] using h.held herr j hj
    · simpa [State.goto, State.order, hji] using h.held herr j hj
  free := h.free
  pre := h.pre
  told j hj := by
    by_cases hji : j = i
    · subst hji
      exact ht (by simpa [State.goto] using hj)
    · exact h.told j (by simpa [State.goto, hji] using hj)

theorem StreamInv.lock (h : StreamInv cfg s) (hmu : s.mu = none) :
    StreamInv cfg { s.goto i .check with mu := some i } where
  held herr j hj := by
    obtain rfl : i = j := by simpa using hj
    simpa [State.goto, State.order, CallPc.pending] using h.free herr hmu
  free _ hnone := by simp at hnone
  pre := h.pre
  told j hj := by
    by_cases hji : j = i
    · subst hji; simp [State.goto, CallPc.sawErr] at hj
    · exact h.told j (by simpa [State.goto, hji] using hj)

theorem StreamInv.release (h : StreamInv cfg s) (hmu : s.mu = some i)
    (hp : (s.call i).pending cfg i = []) (ht : pc.sawErr = true → s.w.err = true) :
    StreamInv cfg { s.goto i pc with mu := none } where
  held _ j hj := by simp at hj
  free herr _ := by
    have := h.held herr i hmu
    rwa [hp, List.append_nil] at this
  pre := h.pre
  told j hj := by
    by_cases hji : j = i
    · subst hji; exact ht (by simpa [State.goto] using hj)
    · exact h.told j (by simpa [State.goto, hji] using hj)

theorem StreamInv.push (h : StreamInv cfg s) (hmu : s.mu = some i)
    (hi : s.call i = .push) :
    StreamInv cfg { s.goto i .writeHdr with fifo := s.fifo ++ [i] } := by
  have horder : State.order { s.goto i .writeHdr with fifo := s.fifo ++ [i] } =
      s.order ++ [i] := by simp [State.order, State.goto]
  have hstream : cfg.stream (s.order ++ [i]) = cfg.stream s.order ++ cfg.wireFrame i := by
    simp [Config.stream]
  refine ⟨?_, ?_, ?_, ?_⟩
  · intro herr j hj
    obtain rfl : i = j := by simpa [State.goto, hmu] using hj
    have := h.held herr i hmu
    rw [hi] at this
    rw [horder, hstream, ← this]
    simp [State.goto, CallPc.pending]
  · intro _ hnone
    simp [State.goto, hmu] at hnone
  · rw [horder, hstream]
    exact h.pre.trans (List.prefix_append _ _)
  · intro j hj
    by_cases hji : j = i
    · subst hji; simp [State.goto, CallPc.sawErr] at hj
    · exact h.told j (by simpa [State.goto, hji] using hj)

/-- The holder of `mu` hands `p` to the writer and has the rest still to
write. -/
theorem StreamInv.write (h : StreamInv cfg s) (hmu : s.mu = some i)
    {p : List (ι × UInt8)} {t : Transfer}
    (hp : (s.call i).pending cfg i = p ++ pc.pending cfg i)
    (ht : pc.sawErr = true → (s.w.write p t).err = true) :
    StreamInv cfg ((s.writeOut p t).goto i pc) := by
  -- As long as there is no error, what is on the wire, in the buffer and still
  -- to be written make up the stream.
  have hsplit : s.w.err = false →
      s.wire ++ (s.w.buf ++ p) ++ pc.pending cfg i = cfg.stream s.order := by
    intro herr
    have := h.held herr i hmu
    rw [hp] at this
    simpa [List.append_assoc] using this
  refine ⟨?_, ?_, ?_, ?_⟩
  · intro herr j hj
    obtain rfl : i = j := by simpa [State.goto, State.writeOut, hmu] using hj
    have herr' : s.w.err = false := by
      have : (s.w.write p t).err = false := herr
      rw [Writer.write_err, Bool.or_eq_false_iff] at this
      exact this.1
    calc s.wire ++ s.w.passed p t ++ (s.w.write p t).buf ++
          (((s.writeOut p t).goto i pc).call i).pending cfg i
        = s.wire ++ (s.w.passed p t ++ (s.w.write p t).buf) ++ pc.pending cfg i := by
          simp [State.goto, List.append_assoc]
      _ = s.wire ++ (s.w.buf ++ p) ++ pc.pending cfg i := by
          rw [Writer.passed_append_buf herr']
      _ = cfg.stream s.order := hsplit herr'
  · intro _ hnone
    simp [State.goto, State.writeOut, hmu] at hnone
  · change s.wire ++ s.w.passed p t <+: cfg.stream s.order
    cases herr : s.w.err with
    | true =>
        rw [Writer.passed_of_err herr, List.append_nil]
        exact h.pre
    | false =>
        rw [← hsplit herr, List.append_assoc, List.prefix_append_right_inj]
        exact (Writer.passed_isPrefix herr p t).trans (List.prefix_append _ _)
  · intro j hj
    by_cases hji : j = i
    · subst hji; exact ht (by simpa [State.goto] using hj)
    · have herr := h.told j (by simpa [State.goto, State.writeOut, hji] using hj)
      change (s.w.write p t).err = true
      rw [Writer.write_err, herr, Bool.true_or]

theorem StreamInv.step (h : StreamInv cfg s) (hlock : LockInv cfg s)
    (hstep : cfg.Step s s') : StreamInv cfg s' := by
  have holder {i : ι} (hc : (s.call i).critical = true) : s.mu = some i :=
    (hlock.mutex i).mpr hc
  cases hstep with
  | startDead hi _ | startLive hi _ | checkDead hi _ | checkLive hi _ | casLost hi _ =>
      exact h.goto (by rw [hi]; rfl) (by simp [CallPc.sawErr])
  | lock hi hmu => exact h.lock hmu
  | unlockDead hi =>
      exact h.release (holder (by rw [hi]; rfl)) (by rw [hi]; rfl) (by simp [CallPc.sawErr])
  | push hi _ => exact h.push (holder (by rw [hi]; rfl)) hi
  | @writeHdr i t hi _ =>
      exact h.write (holder (by rw [hi]; rfl)) (by rw [hi]; rfl) (fun he => he)
  | @writeFrame i t err hi _ =>
      refine h.write (holder (by rw [hi]; rfl))
        (by rw [hi]; simp [CallPc.pending]) (fun he => ?_)
      rcases Bool.or_eq_true_iff.mp he with he | he
      · rw [Writer.write_err, h.told i (by rw [hi]; exact he), Bool.true_or]
      · exact he
  | @flush i t err hi _ =>
      refine h.write (holder (by rw [hi]; rfl)) (by rw [hi]; rfl) (fun he => ?_)
      rcases Bool.or_eq_true_iff.mp he with he | he
      · rw [Writer.write_err, h.told i (by rw [hi]; exact he), Bool.true_or]
      · exact he
  | @unlockErr i hi =>
      exact h.release (holder (by rw [hi]; rfl)) (by rw [hi]; rfl)
        (fun _ => h.told i (by rw [hi]; rfl))
  | unlockOk hi =>
      exact h.release (holder (by rw [hi]; rfl)) (by rw [hi]; rfl) (by simp [CallPc.sawErr])
  | @casWon i hi _ =>
      have hgoto : StreamInv cfg (s.goto i .failClose) :=
        h.goto (by rw [hi]; rfl) (fun _ => h.told i (by rw [hi]; rfl))
      exact hgoto.of_eq rfl rfl rfl rfl rfl
  | @close i hi =>
      have hgoto : StreamInv cfg (s.goto i (.returned .connDead)) :=
        h.goto (by rw [hi]; rfl) (by simp [CallPc.sawErr])
      exact hgoto.of_eq rfl rfl rfl rfl rfl
  | @recv i r hi _ =>
      have hgoto : StreamInv cfg (s.goto i (.returned r)) :=
        h.goto (by rw [hi]; rfl) (by simp [CallPc.sawErr])
      exact hgoto.of_eq rfl rfl rfl rfl rfl
  | pop _ hfifo | drainPop _ hfifo =>
      exact h.of_eq rfl rfl rfl rfl (order_takeSlot s hfifo _)
  | answer | readResponse | readRejected | readPanicked | readError | send | readCASLost
  | readCASWon | readClose | drainSend | drainDone => exact h.of_eq rfl rfl rfl rfl rfl

theorem StreamInv.reachable (hs : cfg.system.Reachable s) : StreamInv cfg s := by
  refine cfg.reachable_invariant ⟨?_, ?_, ?_, ?_⟩
    (fun hr h => h.step (LockInv.reachable hr)) hs <;>
    simp [State.initial, State.order, Config.stream, CallPc.sawErr]

/-! ### The server -/

omit [DecidableEq ι] in
/-- A frame starts with a byte of its own call: the header is never empty. -/
theorem Config.wireFrame_head (cfg : Config ι) (i : ι) :
    ∃ b rest, cfg.wireFrame i = (i, b) :: rest := by
  have hlen : (cfg.hdr i).length = 4 := length_bytesOf 4 _
  obtain ⟨b, bs, hcons⟩ := List.exists_cons_of_length_eq_add_one hlen
  exact ⟨b, tag i bs ++ tag i (cfg.frame i), by simp [Config.wireFrame, tag, hcons]⟩

omit [DecidableEq ι] in
/-- Where the stream goes on with a frame of `i`, the next call is `i`. -/
theorem Config.head_of_wireFrame_isPrefix {rest : List ι}
    (h : cfg.wireFrame i <+: cfg.stream rest) : ∃ tl, rest = i :: tl := by
  obtain ⟨b, bs, hi⟩ := cfg.wireFrame_head i
  cases rest with
  | nil =>
      rw [hi] at h
      simp [Config.stream] at h
  | cons j tl =>
      obtain ⟨b', bs', hj⟩ := cfg.wireFrame_head j
      rw [hi, Config.stream, List.flatMap_cons, hj, List.cons_append,
        List.cons_prefix_cons] at h
      exact ⟨tl, by rw [(Prod.mk.inj h.1).1]⟩

structure ServerInv (cfg : Config ι) (s : State ι) : Prop where
  answered : s.answered.map Prod.fst <+: s.order
  served : s.served = (cfg.stream (s.answered.map Prod.fst)).length
  wellFormed : ∀ p ∈ s.answered, WellFormed p.2

omit [DecidableEq ι] in
theorem ServerInv.of_eq (h : ServerInv cfg s) (hserved : s'.served = s.served)
    (hanswered : s'.answered = s.answered) (horder : s.order <+: s'.order) :
    ServerInv cfg s' where
  answered := by rw [hanswered]; exact h.answered.trans horder
  served := by rw [hserved, hanswered]; exact h.served
  wellFormed := by rw [hanswered]; exact h.wellFormed

omit [DecidableEq ι] in
theorem ServerInv.answer (h : ServerInv cfg s) (hstream : StreamInv cfg s) {body : Bytes}
    (hframe : cfg.wireFrame i <+: s.wire.drop s.served) (hbody : WellFormed body) :
    ServerInv cfg { s with
      served := s.served + (cfg.wireFrame i).length
      answered := s.answered ++ [(i, body)] } := by
  obtain ⟨rest, hrest⟩ := h.answered
  -- The frame the server sees is the first one of the calls not answered yet.
  have hdrop : cfg.wireFrame i <+: cfg.stream rest := by
    have hpre := hstream.pre.drop s.served
    rw [← hrest, cfg.stream_append, h.served, List.drop_left] at hpre
    exact hframe.trans (h.served ▸ hpre)
  obtain ⟨tl, rfl⟩ := cfg.head_of_wireFrame_isPrefix hdrop
  refine ⟨?_, ?_, ?_⟩
  · change (s.answered ++ [(i, body)]).map Prod.fst <+: s.order
    rw [← hrest]
    simp
  · simp [h.served, Config.stream]
  · intro p hp
    rcases List.mem_append.mp hp with hp | hp
    · exact h.wellFormed p hp
    · obtain rfl := List.mem_singleton.mp hp
      exact hbody

theorem ServerInv.step (h : ServerInv cfg s) (hstream : StreamInv cfg s)
    (hstep : cfg.Step s s') : ServerInv cfg s' := by
  cases hstep with
  | answer hframe hbody => exact h.answer hstream hframe hbody
  | push hi _ => exact h.of_eq rfl rfl (by simp [State.order, State.goto])
  | pop _ hfifo | drainPop _ hfifo =>
      exact h.of_eq rfl rfl (by rw [order_takeSlot s hfifo])
  | _ => exact h.of_eq rfl rfl (List.prefix_refl _)

theorem ServerInv.reachable (hs : cfg.system.Reachable s) : ServerInv cfg s := by
  refine cfg.reachable_invariant ⟨?_, ?_, ?_⟩
    (fun hr h => h.step (StreamInv.reachable hr)) hs <;>
    simp [State.initial, Config.stream]

end RostamBench.Netkv.Pconn
