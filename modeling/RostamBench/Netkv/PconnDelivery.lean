import RostamBench.Netkv.PconnStream

/-!
What `readLoop` does with the order of `fifo`: which response goes into which
result slot, how often a slot is filled, and what is left behind when the loop
returns.

`ReadInv` says that the responses read so far belong to the slots taken off
`fifo` so far. `SlotInv` counts the sends and keeps every delivered response
with the call it answers. `DeadInv` is about the end of the connection: once
`readLoop` drains, the writer is in error or the socket is closed locally, so
no caller can still write a frame, and after the drain at most the caller that
was already past its second check of `dead` can push.
-/

namespace RostamBench.Netkv.Pconn

open BigEndian BufWriter Transition

variable {ι : Type*} {cfg : Config ι} {s s' : State ι} {i : ι} {pc : CallPc}

/-- The calls whose responses `readLoop` has read, oldest first. -/
def State.reads (s : State ι) : List ι := (s.answered.take s.nread).map Prod.fst

/-- `r` is the server's response to the request frame of call `i`. -/
def State.Answers (s : State ι) (i : ι) (r : Presp) : Prop :=
  ∃ body, (i, body) ∈ s.answered ∧ parseBody body = .response r.status r.payload

theorem State.Answers.mono {r : Presp} (h : s.Answers i r)
    (ha : s.answered <+: s'.answered) : s'.Answers i r := by
  obtain ⟨body, hmem, hparse⟩ := h
  exact ⟨body, ha.subset hmem, hparse⟩

/-! ### Responses and slots in step -/

/-- What is known of the reads and the slots taken at each place of
`readLoop`. -/
def State.ReadAt (s : State ι) : ReadPc ι → Prop
  | .read | .failCAS | .failClose => s.reads = s.popped
  | .pop r => ∃ i, s.reads = s.popped ++ [i] ∧ s.Answers i r
  | .send i r => s.reads = s.popped ∧ s.Answers i r
  | .drain | .drainSend _ | .returned => s.reads <+: s.popped
  | .panicked => False

structure ReadInv (s : State ι) : Prop where
  nread_le : s.nread ≤ s.answered.length
  readAt : s.ReadAt s.reader

theorem reads_mono (hn : s'.nread = s.nread) (hle : s.nread ≤ s.answered.length)
    (ha : s.answered <+: s'.answered) : s'.reads = s.reads := by
  obtain ⟨rest, hrest⟩ := ha
  rw [State.reads, State.reads, hn, ← hrest, List.take_append_of_le_length hle]

theorem ReadInv.of_eq (h : ReadInv s) (hn : s'.nread = s.nread)
    (ha : s.answered <+: s'.answered) (hr : s'.reader = s.reader)
    (hp : s'.popped = s.popped) : ReadInv s' := by
  have hreads := reads_mono hn h.nread_le ha
  refine ⟨hn ▸ h.nread_le.trans ha.length_le, ?_⟩
  have hat := h.readAt
  rw [hr]
  cases hrd : s.reader with
  | pop r =>
      rw [hrd] at hat
      obtain ⟨i, hi, hans⟩ := hat
      exact ⟨i, by rw [hreads, hp, hi], hans.mono ha⟩
  | send i r =>
      rw [hrd] at hat
      exact ⟨by rw [hreads, hp, hat.1], hat.2.mono ha⟩
  | panicked =>
      rw [hrd] at hat
      exact hat.elim
  | _ =>
      rw [hrd] at hat
      simpa only [State.ReadAt, hreads, hp] using hat

/-- The next slot on `fifo` is the one of the response just read. -/
theorem ReadInv.pop_eq (h : ReadInv s) (hserver : ServerInv cfg s) {r : Presp}
    {rest : List ι} (hr : s.reader = .pop r) (hfifo : s.fifo = i :: rest) :
    s.reads = s.popped ++ [i] ∧ s.Answers i r := by
  have hat := h.readAt
  rw [hr] at hat
  obtain ⟨j, hreads, hans⟩ := hat
  have hpre : s.popped ++ [j] <+: s.popped ++ i :: rest := by
    have htake : s.reads <+: s.answered.map Prod.fst := by
      rw [State.reads]
      exact (List.take_prefix _ _).map _
    rw [← hreads, ← hfifo]
    exact htake.trans hserver.answered
  have hji : j = i := by simpa using hpre
  exact ⟨hji ▸ hreads, hji ▸ hans⟩

theorem reads_succ {body : Bytes} (hnext : s.answered[s.nread]? = some (i, body)) :
    (s.answered.take (s.nread + 1)).map Prod.fst = s.reads ++ [i] := by
  simp [State.reads, List.take_add_one, hnext]

/-- A well-formed response is never rejected, so the loop leaves through a read
error only. -/
theorem ServerInv.parse_next (h : ServerInv cfg s) {body : Bytes}
    (hnext : s.answered[s.nread]? = some (i, body)) :
    ∃ status payload, parseBody body = .response status payload :=
  ⟨_, _, parseBody_wellFormed (h.wellFormed _ (List.mem_of_getElem? hnext))⟩

variable [DecidableEq ι]

theorem ReadInv.step (h : ReadInv s) (hserver : ServerInv cfg s)
    (hstep : cfg.Step s s') : ReadInv s' := by
  have hat := h.readAt
  cases hstep with
  | answer => exact h.of_eq rfl (List.prefix_append _ _) rfl rfl
  | @readResponse i body status payload hr hnext hparse =>
      rw [hr] at hat
      have hlt : s.nread < s.answered.length := (List.getElem?_eq_some_iff.mp hnext).1
      refine ⟨hlt, i, ?_, body, List.mem_of_getElem? hnext, hparse⟩
      change (s.answered.take (s.nread + 1)).map Prod.fst = s.popped ++ [i]
      rw [reads_succ hnext, hat]
  | readRejected _ hnext hparse | readPanicked _ hnext hparse =>
      obtain ⟨status, payload, hok⟩ := hserver.parse_next hnext
      rw [hok] at hparse
      cases hparse
  | readError hr =>
      rw [hr] at hat
      exact ⟨h.nread_le, hat⟩
  | pop hr hfifo =>
      obtain ⟨hreads, hans⟩ := h.pop_eq hserver hr hfifo
      exact ⟨h.nread_le, hreads, hans⟩
  | send hr _ =>
      rw [hr] at hat
      exact ⟨h.nread_le, hat.1⟩
  | readCASLost hr _ =>
      rw [hr] at hat
      exact ⟨h.nread_le, hat ▸ List.prefix_refl s.reads⟩
  | readCASWon hr _ =>
      rw [hr] at hat
      exact ⟨h.nread_le, hat⟩
  | readClose hr =>
      rw [hr] at hat
      exact ⟨h.nread_le, hat ▸ List.prefix_refl s.reads⟩
  | drainPop hr _ =>
      rw [hr] at hat
      exact ⟨h.nread_le, List.IsPrefix.trans hat (List.prefix_append _ _)⟩
  | drainSend hr _ =>
      rw [hr] at hat
      exact ⟨h.nread_le, hat⟩
  | drainDone hr _ =>
      rw [hr] at hat
      exact ⟨h.nread_le, hat⟩
  | _ => exact h.of_eq rfl (List.prefix_refl _) rfl rfl

theorem ReadInv.reachable (hs : cfg.system.Reachable s) : ReadInv s := by
  refine cfg.reachable_invariant ⟨?_, ?_⟩ (fun hr h => h.step (ServerInv.reachable hr)) hs
  · simp [State.initial]
  · simp [State.initial, State.ReadAt, State.reads]

/-! ### The result slots -/

/-- The slot `readLoop` has taken off `fifo` and not filled yet. -/
def ReadPc.target : ReadPc ι → Option ι
  | .send i _ | .drainSend i => some i
  | .read | .pop _ | .failCAS | .failClose | .drain | .returned | .panicked => none

structure SlotInv (s : State ι) : Prop where
  fresh : ∀ i, i ∉ s.popped → s.sent i = 0
  filled : ∀ i ∈ s.popped, s.reader.target ≠ some i → s.sent i = 1
  target : ∀ i, s.reader.target = some i → i ∈ s.popped ∧ s.sent i = 0
  value : ∀ i r, s.rc i = some r → s.sent i = 1 ∧ (r.dead = false → s.Answers i r)
  kept : ∀ i, s.sent i = 1 → (s.call i).late = true → s.rc i ≠ none
  result : ∀ i r, s.call i = .returned r → r.dead = false → s.Answers i r

theorem SlotInv.sent_le_one (h : SlotInv s) (i : ι) : s.sent i ≤ 1 := by
  by_cases hi : i ∈ s.popped
  · by_cases ht : s.reader.target = some i
    · rw [(h.target i ht).2]; exact Nat.zero_le 1
    · rw [h.filled i hi ht]
  · rw [h.fresh i hi]; exact Nat.zero_le 1

omit [DecidableEq ι] in
/-- A slot that is about to be filled is empty. -/
theorem SlotInv.target_empty (h : SlotInv s) (ht : s.reader.target = some i) :
    s.rc i = none := by
  cases hrc : s.rc i with
  | none => rfl
  | some r =>
      have hone := (h.value i r hrc).1
      rw [(h.target i ht).2] at hone
      cases hone

omit [DecidableEq ι] in
theorem SlotInv.of_eq (h : SlotInv s) (hcall : s'.call = s.call)
    (hpopped : s'.popped = s.popped) (hsent : s'.sent = s.sent) (hrc : s'.rc = s.rc)
    (htarget : s'.reader.target = s.reader.target) (ha : s.answered <+: s'.answered) :
    SlotInv s' where
  fresh := by rw [hpopped, hsent]; exact h.fresh
  filled := by rw [hpopped, hsent, htarget]; exact h.filled
  target := by rw [hpopped, hsent, htarget]; exact h.target
  value i r hr := by
    rw [hrc] at hr
    rw [hsent]
    exact ⟨(h.value i r hr).1, fun hd => ((h.value i r hr).2 hd).mono ha⟩
  kept := by rw [hsent, hcall, hrc]; exact h.kept
  result i r hr hd := by
    rw [hcall] at hr
    exact (h.result i r hr hd).mono ha

theorem SlotInv.goto (h : SlotInv s)
    (hl : pc.late = true → (s.call i).late = true ∨ s.sent i = 0)
    (hres : ∀ r, pc = .returned r → r.dead = false → s.Answers i r) :
    SlotInv (s.goto i pc) where
  fresh := h.fresh
  filled := h.filled
  target := h.target
  value := h.value
  kept j hone hlate := by
    by_cases hj : j = i
    · subst hj
      rcases hl (by simpa [State.goto] using hlate) with hold | hzero
      · exact h.kept j hone hold
      · change s.sent j = 1 at hone
        rw [hzero] at hone
        cases hone
    · exact h.kept j hone (by simpa [State.goto, hj] using hlate)
  result j r hr hd := by
    by_cases hj : j = i
    · subst hj; exact hres r (by simpa [State.goto] using hr) hd
    · exact h.result j r (by simpa [State.goto, hj] using hr) hd

theorem SlotInv.recv (h : SlotInv s) {r : Presp} (hr : s.rc i = some r) :
    SlotInv { s.goto i (.returned r) with rc := Function.update s.rc i none } where
  fresh := h.fresh
  filled := h.filled
  target := h.target
  value j r' hrc := by
    by_cases hj : j = i
    · subst hj; simp at hrc
    · exact h.value j r' (by simpa [hj] using hrc)
  kept j hone hlate := by
    by_cases hj : j = i
    · subst hj; simp [State.goto, CallPc.late] at hlate
    · have hkept := h.kept j hone (by simpa [State.goto, hj] using hlate)
      simpa [hj] using hkept
  result j r' hret hd := by
    by_cases hj : j = i
    · subst hj
      obtain rfl : r = r' := by simpa [State.goto] using hret
      exact (h.value j r hr).2 hd
    · exact h.result j r' (by simpa [State.goto, hj] using hret) hd

omit [DecidableEq ι] in
theorem SlotInv.takeSlot (h : SlotInv s) {rest : List ι} {rpc : ReadPc ι}
    (hnot : i ∉ s.popped) (hold : s.reader.target = none) (hnew : rpc.target = some i) :
    SlotInv (s.takeSlot i rest rpc) where
  fresh j hj := h.fresh j (fun hmem => hj (by simp [State.takeSlot, hmem]))
  filled j hj ht := by
    have hji : j ≠ i := fun heq => ht (by simp [State.takeSlot, hnew, heq])
    have hmem : j ∈ s.popped := by simpa [State.takeSlot, hji] using hj
    exact h.filled j hmem (by rw [hold]; simp)
  target j hj := by
    obtain rfl : i = j := by simpa [State.takeSlot, hnew] using hj
    exact ⟨by simp [State.takeSlot], h.fresh i hnot⟩
  value := h.value
  kept := h.kept
  result := h.result

theorem SlotInv.sendTo (h : SlotInv s) {r : Presp} {rpc : ReadPc ι}
    (hold : s.reader.target = some i) (hnew : rpc.target = none)
    (hans : r.dead = false → s.Answers i r) : SlotInv (s.sendTo i r rpc) where
  fresh j hj := by
    have hji : j ≠ i := fun heq => hj (heq ▸ (h.target i hold).1)
    simpa [State.sendTo, hji] using h.fresh j hj
  filled j hj _ := by
    by_cases hji : j = i
    · subst hji; simp [State.sendTo, (h.target j hold).2]
    · have := h.filled j hj (by rw [hold]; simpa using Ne.symm hji)
      simpa [State.sendTo, hji] using this
  target j hj := by simp [State.sendTo, hnew] at hj
  value j r' hrc := by
    by_cases hji : j = i
    · subst hji
      obtain rfl : r = r' := by simpa [State.sendTo] using hrc
      exact ⟨by simp [State.sendTo, (h.target j hold).2], hans⟩
    · have := h.value j r' (by simpa [State.sendTo, hji] using hrc)
      exact ⟨by simpa [State.sendTo, hji] using this.1, this.2⟩
  kept j hone hlate := by
    by_cases hji : j = i
    · subst hji; simp [State.sendTo]
    · have := h.kept j (by simpa [State.sendTo, hji] using hone) hlate
      simpa [State.sendTo, hji] using this
  result := h.result

omit [DecidableEq ι] in
/-- The head of `fifo` has not been taken before. -/
theorem LockInv.head_not_popped (h : LockInv cfg s) {rest : List ι}
    (hfifo : s.fifo = i :: rest) : i ∉ s.popped := by
  have hnodup := h.nodup
  rw [State.order, hfifo, List.nodup_append] at hnodup
  intro hmem
  exact hnodup.2.2 i hmem i (by simp) rfl

theorem SlotInv.step (h : SlotInv s) (hlock : LockInv cfg s) (hread : ReadInv s)
    (hstep : cfg.Step s s') : SlotInv s' := by
  have hpre := List.prefix_refl s.answered
  have hat := hread.readAt
  cases hstep with
  | startDead hi _ | casLost hi _ =>
      refine h.goto (by simp [CallPc.late]) ?_
      rintro _ ⟨⟩ hd
      cases hd
  | startLive hi _ | checkDead hi _ | checkLive hi _ =>
      exact h.goto (by simp [CallPc.late]) (by simp)
  | @lock i hi _ =>
      have hgoto : SlotInv (s.goto i .check) := h.goto (by simp [CallPc.late]) (by simp)
      exact hgoto.of_eq rfl rfl rfl rfl rfl hpre
  | @unlockDead i _ | @close i _ =>
      have hgoto : SlotInv (s.goto i (.returned .connDead)) := by
        refine h.goto (by simp [CallPc.late]) ?_
        rintro _ ⟨⟩ hd
        cases hd
      exact hgoto.of_eq rfl rfl rfl rfl rfl hpre
  | @push i hi _ =>
      -- The slot of a call that has not pushed yet was never filled.
      have hzero : s.sent i = 0 := by
        apply h.fresh
        have := hlock.early i (by rw [hi]; rfl)
        rw [State.order, List.mem_append, not_or] at this
        exact this.1
      have hgoto : SlotInv (s.goto i .writeHdr) := h.goto (fun _ => Or.inr hzero) (by simp)
      exact hgoto.of_eq rfl rfl rfl rfl rfl hpre
  | writeHdr hi _ | writeFrame hi _ | flush hi _ =>
      refine SlotInv.goto (h.of_eq rfl rfl rfl rfl rfl hpre) (fun _ => Or.inl ?_) (by simp)
      simp [State.writeOut, hi, CallPc.late]
  | @unlockErr i hi =>
      have hgoto : SlotInv (s.goto i .failCAS) :=
        h.goto (fun _ => Or.inl (by rw [hi]; rfl)) (by simp)
      exact hgoto.of_eq rfl rfl rfl rfl rfl hpre
  | @unlockOk i hi =>
      have hgoto : SlotInv (s.goto i .recv) :=
        h.goto (fun _ => Or.inl (by rw [hi]; rfl)) (by simp)
      exact hgoto.of_eq rfl rfl rfl rfl rfl hpre
  | @casWon i hi _ =>
      have hgoto : SlotInv (s.goto i .failClose) :=
        h.goto (fun _ => Or.inl (by rw [hi]; rfl)) (by simp)
      exact hgoto.of_eq rfl rfl rfl rfl rfl hpre
  | recv _ hr => exact h.recv hr
  | answer => exact h.of_eq rfl rfl rfl rfl rfl (List.prefix_append _ _)
  | readResponse hr _ _ | readRejected hr _ _ | readPanicked hr _ _ | readError hr
  | readCASLost hr _ | readCASWon hr _ | readClose hr | drainDone hr _ =>
      exact h.of_eq rfl rfl rfl rfl (by rw [hr]; rfl) hpre
  | pop hr hfifo | drainPop hr hfifo =>
      exact h.takeSlot (hlock.head_not_popped hfifo) (by rw [hr]; rfl) rfl
  | send hr _ =>
      rw [hr] at hat
      exact h.sendTo (by rw [hr]; rfl) rfl (fun _ => hat.2)
  | drainSend hr _ => exact h.sendTo (by rw [hr]; rfl) rfl (fun hd => by cases hd)

theorem SlotInv.reachable (hs : cfg.system.Reachable s) : SlotInv s := by
  refine cfg.reachable_invariant ⟨?_, ?_, ?_, ?_, ?_, ?_⟩
    (fun hr h => h.step (LockInv.reachable hr) (ReadInv.reachable hr)) hs <;>
    simp [State.initial, ReadPc.target]

/-! ### The end of the connection -/

/-- `readLoop` is past its `fail`. -/
def ReadPc.draining : ReadPc ι → Bool
  | .drain | .drainSend _ | .returned => true
  | .read | .pop _ | .send _ _ | .failCAS | .failClose | .panicked => false

/-- A caller whose slot nobody will take any more: its writes have failed, or
will fail because the writer is in error or still holds bytes for a closed
socket. -/
def CallPc.Doomed (w : Writer (ι × UInt8)) : CallPc → Prop
  | .writeFrame _ | .flush _ => w.err = true ∨ w.buf ≠ []
  | .unlock err => err = true
  | .recv => False
  | .start | .lock | .check | .unlockDead | .push | .writeHdr | .failCAS | .failClose
  | .returned _ => True

structure DeadInv (s : State ι) : Prop where
  quiet : s.reader.draining = true →
    s.dead = true ∧ (s.w.err = true ∨ s.closed = true)
  closing : s.reader = .failClose → s.dead = true
  cause : s.dead = true →
    s.w.err = true ∨ s.reader = .failClose ∨ s.reader.draining = true
  pushing : s.reader = .returned → ∀ i, s.call i = .push → s.fifo = []
  straggler : s.reader = .returned → ∀ i ∈ s.fifo, (s.call i).Doomed s.w

omit [DecidableEq ι] in
theorem DeadInv.of_eq (h : DeadInv s) (hr : s'.reader = s.reader) (hdead : s'.dead = s.dead)
    (hw : s'.w = s.w) (hclosed : s.closed = true → s'.closed = true)
    (hcall : s'.call = s.call) (hfifo : s'.fifo = s.fifo) : DeadInv s' where
  quiet hd := by
    rw [hr] at hd
    rw [hdead, hw]
    exact ⟨(h.quiet hd).1, (h.quiet hd).2.imp_right hclosed⟩
  closing := by rw [hr, hdead]; exact h.closing
  cause := by rw [hr, hdead, hw]; exact h.cause
  pushing := by rw [hr, hcall, hfifo]; exact h.pushing
  straggler := by rw [hr, hcall, hfifo, hw]; exact h.straggler

theorem DeadInv.goto (h : DeadInv s)
    (hpush : s.reader = .returned → pc = .push → s.fifo = [])
    (hdoom : s.reader = .returned → i ∈ s.fifo → pc.Doomed s.w) :
    DeadInv (s.goto i pc) where
  quiet := h.quiet
  closing := h.closing
  cause := h.cause
  pushing hr j hj := by
    by_cases hji : j = i
    · subst hji; exact hpush hr (by simpa [State.goto] using hj)
    · exact h.pushing hr j (by simpa [State.goto, hji] using hj)
  straggler hr j hj := by
    by_cases hji : j = i
    · subst hji; simpa [State.goto] using hdoom hr hj
    · simpa [State.goto, hji] using h.straggler hr j hj

omit [DecidableEq ι] in
/-- A reader step to a place other than the last one. -/
theorem DeadInv.toReader (hr : s'.reader ≠ .returned)
    (hquiet : s'.reader.draining = true →
      s'.dead = true ∧ (s'.w.err = true ∨ s'.closed = true))
    (hclosing : s'.reader = .failClose → s'.dead = true)
    (hcause : s'.dead = true →
      s'.w.err = true ∨ s'.reader = .failClose ∨ s'.reader.draining = true) :
    DeadInv s' :=
  ⟨hquiet, hclosing, hcause, fun h => absurd h hr, fun h => absurd h hr⟩

omit [DecidableEq ι] in
/-- Two callers inside the critical section are one. -/
theorem LockInv.critical_unique (h : LockInv cfg s) {j : ι}
    (hi : (s.call i).critical = true) (hj : (s.call j).critical = true) : j = i :=
  Option.some.inj (((h.mutex j).mpr hj).symm.trans ((h.mutex i).mpr hi))

/-- The writer and the socket change under the holder of `mu` only, which is
the only caller whose fate depends on them. -/
theorem DeadInv.write (h : DeadInv s) (hlock : LockInv cfg s)
    (hi : (s.call i).critical = true) {p : List (ι × UInt8)} {t : Transfer}
    (hnp : pc ≠ .push)
    (hdoom : s.reader = .returned → i ∈ s.fifo → pc.Doomed (s.w.write p t)) :
    DeadInv ((s.writeOut p t).goto i pc) where
  quiet hd := by
    obtain ⟨hdead, herr | hclosed⟩ := h.quiet hd
    · exact ⟨hdead, Or.inl (by simp [State.goto, State.writeOut, Writer.write_err, herr])⟩
    · exact ⟨hdead, Or.inr hclosed⟩
  closing := h.closing
  cause hd := by
    rcases h.cause hd with herr | hrest
    · exact Or.inl (by simp [State.goto, State.writeOut, Writer.write_err, herr])
    · exact Or.inr hrest
  pushing hr j hj := by
    by_cases hji : j = i
    · subst hji; exact absurd (by simpa [State.goto] using hj) hnp
    · exact h.pushing hr j (by simpa [State.goto, State.writeOut, hji] using hj)
  straggler hr j hj := by
    by_cases hji : j = i
    · subst hji; simpa [State.goto, State.writeOut] using hdoom hr hj
    · have hold := h.straggler hr j hj
      have hnc : (s.call j).critical = false := by
        by_contra hc
        exact hji (hlock.critical_unique hi (by simpa using hc))
      simp only [State.goto, State.writeOut, Function.update_of_ne hji]
      cases hcall : s.call j <;> rw [hcall] at hold hnc <;>
        first | exact hold | cases hnc

omit [DecidableEq ι] in
/-- A write that follows the drain leaves an error or bytes behind. -/
theorem DeadInv.doomed_write (h : DeadInv s) (hr : s.reader = .returned)
    {p : List (ι × UInt8)} {t : Transfer} (ht : s.w.CanWrite s.closed p t)
    (hne : s.w.buf ++ p ≠ []) :
    (s.w.write p t).err = true ∨ (s.w.write p t).buf ≠ [] := by
  rcases (h.quiet (by rw [hr]; rfl)).2 with herr | hclosed
  · exact Or.inl (by rw [Writer.write_err, herr, Bool.true_or])
  · cases herr : s.w.err with
    | true => exact Or.inl (by rw [Writer.write_err, herr, Bool.true_or])
    | false =>
        have hsent := (ht herr).2 hclosed
        exact Or.inr (by simpa [Writer.write, herr, hsent] using hne)

omit [DecidableEq ι] in
theorem DeadInv.doomed_flush (h : DeadInv s) (hr : s.reader = .returned) {t : Transfer}
    (ht : s.w.CanFlush s.closed t) (hbuf : s.w.err = true ∨ s.w.buf ≠ []) :
    (s.w.write [] t).err = true := by
  rcases (h.quiet (by rw [hr]; rfl)).2 with herr | hclosed
  · rw [Writer.write_err, herr, Bool.true_or]
  · rw [hclosed] at ht
    exact Writer.flush_closed ht hbuf

omit [DecidableEq ι] in
theorem tag_hdr_ne_nil (cfg : Config ι) (i : ι) : tag i (cfg.hdr i) ≠ [] := by
  have hlen : (tag i (cfg.hdr i)).length = 4 := by simp [tag, Config.hdr]
  intro hnil
  simp [hnil] at hlen

/-- A push that follows the drain is the only one, since `mu` is held. -/
theorem DeadInv.push (h : DeadInv s) (hlock : LockInv cfg s) (hi : s.call i = .push) :
    DeadInv { s.goto i .writeHdr with fifo := s.fifo ++ [i] } where
  quiet := h.quiet
  closing := h.closing
  cause := h.cause
  pushing _ j hj := by
    by_cases hji : j = i
    · subst hji; simp [State.goto] at hj
    · have hj' : s.call j = .push := by simpa [State.goto, hji] using hj
      exact absurd (hlock.critical_unique (by rw [hi]; rfl) (by rw [hj']; rfl)) hji
  straggler hr j hj := by
    have hnil : s.fifo = [] := h.pushing hr i hi
    obtain rfl : j = i := by simpa [State.goto, hnil] using hj
    simp [State.goto, CallPc.Doomed]

omit [DecidableEq ι] in
/-- While `readLoop` has not failed the connection itself, only a caller can
have, and a caller only does so after the writer has reported an error. -/
theorem DeadInv.err_of_dead (h : DeadInv s) (hd : s.dead = true)
    (hclose : s.reader ≠ .failClose) (hdrain : s.reader.draining = false) :
    s.w.err = true := by
  rcases h.cause hd with herr | hr | hr
  · exact herr
  · exact absurd hr hclose
  · rw [hdrain] at hr
    cases hr

theorem DeadInv.step (h : DeadInv s) (hlock : LockInv cfg s) (hstream : StreamInv cfg s)
    (hserver : ServerInv cfg s) (hstep : cfg.Step s s') : DeadInv s' := by
  cases hstep with
  | startDead | startLive | checkDead | casLost =>
      exact h.goto (by simp) (by simp [CallPc.Doomed])
  | checkLive hi hd =>
      -- After the drain `dead` is set, so nobody gets past the second check.
      refine h.goto (fun hr => ?_) (by simp [CallPc.Doomed])
      have hdead := (h.quiet (by rw [hr]; rfl)).1
      rw [hd] at hdead
      cases hdead
  | @lock i _ _ =>
      have hgoto : DeadInv (s.goto i .check) := h.goto (by simp) (by simp [CallPc.Doomed])
      exact hgoto.of_eq rfl rfl rfl id rfl rfl
  | @unlockDead i _ =>
      have hgoto : DeadInv (s.goto i (.returned .connDead)) :=
        h.goto (by simp) (by simp [CallPc.Doomed])
      exact hgoto.of_eq rfl rfl rfl id rfl rfl
  | push hi _ => exact h.push hlock hi
  | @writeHdr i t hi ht =>
      refine h.write hlock (by rw [hi]; rfl) (by simp) (fun hr _ => ?_)
      exact h.doomed_write hr ht (by simp [tag_hdr_ne_nil])
  | @writeFrame i t err hi ht =>
      refine h.write hlock (by rw [hi]; rfl) (by simp) (fun hr hmem => ?_)
      have hold := h.straggler hr i hmem
      rw [hi] at hold
      rcases hold with herr | hbuf
      · exact Or.inl (by rw [Writer.write_err, herr, Bool.true_or])
      · exact h.doomed_write hr ht (by simp [hbuf])
  | @flush i t err hi ht =>
      refine h.write hlock (by rw [hi]; rfl) (by simp) (fun hr hmem => ?_)
      have hold := h.straggler hr i hmem
      rw [hi] at hold
      change (err || (s.w.write [] t).err) = true
      rw [h.doomed_flush hr ht hold, Bool.or_true]
  | @unlockErr i _ =>
      have hgoto : DeadInv (s.goto i .failCAS) := h.goto (by simp) (by simp [CallPc.Doomed])
      exact hgoto.of_eq rfl rfl rfl id rfl rfl
  | @unlockOk i hi =>
      have hgoto : DeadInv (s.goto i .recv) := by
        refine h.goto (by simp) (fun hr hmem => ?_)
        have hold := h.straggler hr i hmem
        rw [hi] at hold
        cases hold
      exact hgoto.of_eq rfl rfl rfl id rfl rfl
  | @casWon i hi _ =>
      have hgoto : DeadInv (s.goto i .failClose) := h.goto (by simp) (by simp [CallPc.Doomed])
      have herr := hstream.told i (by rw [hi]; rfl)
      exact ⟨fun hd => ⟨rfl, (hgoto.quiet hd).2⟩, fun _ => rfl, fun _ => Or.inl herr,
        hgoto.pushing, hgoto.straggler⟩
  | @close i _ =>
      have hgoto : DeadInv (s.goto i (.returned .connDead)) :=
        h.goto (by simp) (by simp [CallPc.Doomed])
      exact hgoto.of_eq rfl rfl rfl (fun _ => rfl) rfl rfl
  | @recv i r _ _ =>
      have hgoto : DeadInv (s.goto i (.returned r)) :=
        h.goto (by simp) (by simp [CallPc.Doomed])
      exact hgoto.of_eq rfl rfl rfl id rfl rfl
  | answer => exact h.of_eq rfl rfl rfl id rfl rfl
  | readRejected _ hnext hparse | readPanicked _ hnext hparse =>
      obtain ⟨status, payload, hok⟩ := hserver.parse_next hnext
      rw [hok] at hparse
      cases hparse
  | readResponse hr _ _ | readError hr | pop hr _ | send hr _ =>
      refine .toReader (by simp [State.takeSlot, State.sendTo])
        (by simp [State.takeSlot, State.sendTo, ReadPc.draining])
        (by simp [State.takeSlot, State.sendTo]) (fun hd => ?_)
      exact Or.inl (h.err_of_dead hd (by simp [hr]) (by rw [hr]; rfl))
  | readCASLost hr hd =>
      -- The winner of the swap is a caller.
      have herr := h.err_of_dead hd (by simp [hr]) (by rw [hr]; rfl)
      exact .toReader (by simp) (fun _ => ⟨hd, Or.inl herr⟩) (by simp)
        (fun _ => Or.inl herr)
  | readCASWon hr _ =>
      exact .toReader (by simp) (by simp [ReadPc.draining]) (fun _ => rfl)
        (fun _ => Or.inr (Or.inl rfl))
  | readClose hr =>
      exact .toReader (by simp) (fun _ => ⟨h.closing hr, Or.inr rfl⟩) (by simp)
        (fun _ => Or.inr (Or.inr rfl))
  | drainPop hr _ | drainSend hr _ =>
      have hquiet := h.quiet (by rw [hr]; rfl)
      exact .toReader (by simp [State.takeSlot, State.sendTo]) (fun _ => hquiet)
        (by simp [State.takeSlot, State.sendTo]) (fun _ => Or.inr (Or.inr rfl))
  | drainDone hr hfifo =>
      have hquiet := h.quiet (by rw [hr]; rfl)
      refine ⟨fun _ => hquiet, by simp, fun _ => Or.inr (Or.inr rfl),
        fun _ _ _ => hfifo, ?_⟩
      intro _ j hj
      simp [hfifo] at hj

theorem DeadInv.reachable (hs : cfg.system.Reachable s) : DeadInv s := by
  refine cfg.reachable_invariant ⟨?_, ?_, ?_, ?_, ?_⟩
    (fun hr h => h.step (LockInv.reachable hr) (StreamInv.reachable hr)
      (ServerInv.reachable hr)) hs <;>
    simp [State.initial, ReadPc.draining]

end RostamBench.Netkv.Pconn
