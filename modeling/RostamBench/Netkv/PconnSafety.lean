import RostamBench.Netkv.PconnDelivery

/-!
The two contracts of the pipelined connection, over every interleaving of its
callers, `readLoop` and the server and every point at which a read or a write
starts to fail.

Matching: a call that returns without an error returns the server's answer to
its own request frame, every result slot is filled at most once, and no more
than `window` written requests wait for their responses.

No stranded caller: once `readLoop` has returned, every caller that is through
its writes finds a value in its slot, nobody is blocked on `fifo`, and whoever
waits for the mutex waits for a caller that can move.
-/

namespace RostamBench.Netkv.Pconn

open BigEndian BufWriter Transition

variable {ι : Type*} {cfg : Config ι} {s s' : State ι} {i : ι}

/-- The request frame of call `i` is completely written and `readLoop` has not
read its response. -/
def State.Outstanding (cfg : Config ι) (s : State ι) (i : ι) : Prop :=
  cfg.wireFrame i <:+: s.wire ∧ i ∉ s.reads

/-! ### The window -/

theorem mem_of_wireFrame_infix {order : List ι} (h : cfg.wireFrame i <:+: cfg.stream order) :
    i ∈ order := by
  obtain ⟨b, rest, hhead⟩ := cfg.wireFrame_head i
  have hmem : (i, b) ∈ cfg.stream order := h.subset (by simp [hhead])
  rw [Config.stream, List.mem_flatMap] at hmem
  obtain ⟨j, hj, hb⟩ := hmem
  have hij : j = i := by
    rcases List.mem_append.mp hb with hb | hb <;>
    · obtain ⟨_, -, heq⟩ := List.mem_map.mp hb
      exact (Prod.mk.inj heq).1
  exact hij ▸ hj

/-- Before the drain every outstanding request has its slot on `fifo`. -/
theorem outstanding_mem_fifo (hstream : StreamInv cfg s) (hread : ReadInv s)
    (hr : s.reader.draining = false) (h : s.Outstanding cfg i) : i ∈ s.fifo := by
  obtain ⟨hwritten, hunread⟩ := h
  have horder : i ∈ s.order := mem_of_wireFrame_infix (hwritten.trans hstream.pre.isInfix)
  have hpopped : i ∉ s.popped := by
    intro hmem
    apply hunread
    have hat := hread.readAt
    cases hrd : s.reader with
    | pop r =>
        rw [hrd] at hat
        obtain ⟨j, hreads, -⟩ := hat
        rw [hreads]
        exact List.mem_append_left _ hmem
    | send j r =>
        rw [hrd] at hat
        rw [hat.1]
        exact hmem
    | read | failCAS | failClose =>
        rw [hrd] at hat
        change s.reads = s.popped at hat
        rw [hat]
        exact hmem
    | drain | drainSend | returned =>
        rw [hrd] at hr
        cases hr
    | panicked =>
        rw [hrd] at hat
        exact hat.elim
  rw [State.order, List.mem_append] at horder
  exact horder.resolve_left hpopped

/-- At most `window` requests are outstanding. -/
def WindowInv (cfg : Config ι) (s : State ι) : Prop :=
  ∀ l : List ι, l.Nodup → (∀ i ∈ l, s.Outstanding cfg i) → l.length ≤ cfg.window

theorem WindowInv.of_live (hlock : LockInv cfg s) (hstream : StreamInv cfg s)
    (hread : ReadInv s) (hr : s.reader.draining = false) : WindowInv cfg s := by
  intro l hnodup hall
  have hsub : l ⊆ s.fifo := fun i hi => outstanding_mem_fifo hstream hread hr (hall i hi)
  exact (hnodup.subperm hsub).length_le.trans hlock.cap

theorem WindowInv.of_eq (h : WindowInv cfg s) (hwire : s'.wire = s.wire)
    (hreads : s'.reads = s.reads) : WindowInv cfg s' := by
  intro l hnodup hall
  refine h l hnodup (fun i hi => ?_)
  obtain ⟨hwritten, hunread⟩ := hall i hi
  exact ⟨hwire ▸ hwritten, hreads ▸ hunread⟩

variable [DecidableEq ι]

omit [DecidableEq ι] in
/-- A drained connection takes no bytes. -/
theorem DeadInv.passed_nil (h : DeadInv s) (hr : s.reader.draining = true)
    {p : List (ι × UInt8)} {t : Transfer} (ht : s.w.CanWrite s.closed p t) :
    s.w.passed p t = [] := by
  rcases (h.quiet hr).2 with herr | hclosed
  · exact Writer.passed_of_err herr p t
  · rw [hclosed] at ht
    exact Writer.passed_of_closed ht

theorem WindowInv.step (h : WindowInv cfg s) (hread : ReadInv s) (hdead : DeadInv s)
    (hlive : s'.reader.draining = false → WindowInv cfg s')
    (hstep : cfg.Step s s') : WindowInv cfg s' := by
  cases hr : s'.reader.draining with
  | false => exact hlive hr
  | true =>
      -- From the drain on nothing is written and nothing is read.
      cases hstep with
      | writeHdr _ ht | writeFrame _ ht =>
          refine h.of_eq ?_ rfl
          simp [State.goto, State.writeOut, hdead.passed_nil hr ht]
      | flush _ ht =>
          refine h.of_eq ?_ rfl
          simp [State.goto, State.writeOut, hdead.passed_nil hr ht.1]
      | answer =>
          exact h.of_eq rfl (reads_mono rfl hread.nread_le (List.prefix_append _ _))
      | readResponse | readRejected | readPanicked => cases hr
      | _ => exact h.of_eq rfl rfl

theorem WindowInv.reachable (hs : cfg.system.Reachable s) : WindowInv cfg s := by
  refine hs.invariant ?_ ?_
  · rintro s rfl
    have hinit : cfg.system.Reachable .initial := ⟨[], .start rfl⟩
    exact WindowInv.of_live (LockInv.reachable hinit) (StreamInv.reachable hinit)
      (ReadInv.reachable hinit) rfl
  · rintro s a ⟨evs, hrun⟩ h ha
    have hs' : cfg.system.Reachable (cfg.system.effect s a) := ⟨_, hrun.next ha⟩
    refine h.step (ReadInv.reachable hrun.reachable) (DeadInv.reachable hrun.reachable)
      (fun hr => ?_) (cfg.step_effect ha)
    exact WindowInv.of_live (LockInv.reachable hs') (StreamInv.reachable hs')
      (ReadInv.reachable hs') hr

/-! ### Matching -/

/-- The server answers a request frame at most once. -/
theorem answers_unique (hs : cfg.system.Reachable s) {r r' : Presp}
    (h : s.Answers i r) (h' : s.Answers i r') :
    r'.status = r.status ∧ r'.payload = r.payload := by
  obtain ⟨body, hmem, hparse⟩ := h
  obtain ⟨body', hmem', hparse'⟩ := h'
  have hnodup : (s.answered.map Prod.fst).Nodup :=
    (ServerInv.reachable hs).answered.sublist.nodup (LockInv.reachable hs).nodup
  have hbody : body' = body := by
    have heq := List.inj_on_of_nodup_map hnodup hmem' hmem rfl
    exact (Prod.mk.inj heq).2
  rw [hbody, hparse] at hparse'
  exact ⟨(Parsed.response.inj hparse').1.symm, (Parsed.response.inj hparse').2.symm⟩

/-- **Response matching.** In every reachable state of a connection with any
number of callers: a call that has returned without an error has returned the
server's one response to its own request frame; no result slot has received
more than one value, so `readLoop` can always send; and at most `window`
completely written requests have no response read yet. -/
theorem pipelined_responses_match (hs : cfg.system.Reachable s) :
    (∀ i r, s.call i = .returned r → r.dead = false →
      s.Answers i r ∧
        ∀ r', s.Answers i r' → r'.status = r.status ∧ r'.payload = r.payload) ∧
    (∀ i, s.sent i ≤ 1) ∧
    (∀ i r, s.reader = .send i r → cfg.Enabled s .send) ∧
    (∀ i, s.reader = .drainSend i → cfg.Enabled s .drainSend) ∧
    (∀ l : List ι, l.Nodup → (∀ i ∈ l, s.Outstanding cfg i) → l.length ≤ cfg.window) := by
  have hslot := SlotInv.reachable hs
  refine ⟨?_, hslot.sent_le_one, ?_, ?_, WindowInv.reachable hs⟩
  · intro i r hret hlive
    have hans := hslot.result i r hret hlive
    exact ⟨hans, fun r' h' => answers_unique hs hans h'⟩
  · intro i r hr
    exact ⟨i, r, hr, hslot.target_empty (by rw [hr]; rfl)⟩
  · intro i hr
    exact ⟨i, hr, hslot.target_empty (by rw [hr]; rfl)⟩

/-- Two callers on a connection of window two; the frames are laid out as the
server documents them, `[opLen][op][argsLen u32][args]`. -/
def twoCallers : Config Bool where
  window := 2
  request i := { op := [103, 101, 116], args := if i then [0, 1, 107] else [0, 1, 108] }
  encodeRequest op args :=
    UInt8.ofNat op.length :: op ++ bytesOf 4 args.length ++ args

/-- Both callers write, the server answers in stream order, and `readLoop`
hands the answers over. -/
def twoCallersSchedule : List (Action Bool) :=
  [.deadCheck true, .deadCheck false, .lock false, .deadCheckLocked false, .push false,
    .writeHdr false ⟨0, true⟩, .writeFrame false ⟨5, true⟩, .flush false ⟨10, true⟩,
    .unlock false, .lock true, .deadCheckLocked true, .push true, .writeHdr true ⟨0, true⟩,
    .writeFrame true ⟨0, true⟩, .answer false [0, 0, 0, 0, 1, 8], .flush true ⟨15, true⟩,
    .unlock true, .readFrame, .pop, .send, .answer true [0, 0, 0, 0, 1, 7], .readFrame,
    .pop, .send, .recv true, .recv false]

theorem pipelined_responses_match_two_callers :
    ∃ s, twoCallers.system.Reachable s ∧
      s.call true = .returned { status := 0, payload := [7], dead := false } ∧
      s.Answers true { status := 0, payload := [7], dead := false } := by
  have hreplay : (twoCallers.system.replay .initial twoCallersSchedule).map
      (fun s => s.call true) =
        some (.returned { status := 0, payload := [7], dead := false }) := by decide
  obtain ⟨s, hrun, hcall⟩ := System.run_of_replay hreplay rfl
  have hmatch := (pipelined_responses_match hrun.reachable).1 true _ hcall rfl
  exact ⟨s, hrun.reachable, hcall, hmatch.1⟩

/-! ### No stranded caller -/

/-- The caller an action belongs to. -/
def Action.caller : Action ι → Option ι
  | .deadCheck i | .lock i | .deadCheckLocked i | .unlockDead i | .push i | .writeHdr i _
  | .writeFrame i _ | .flush i _ | .unlock i | .callFailCAS i | .callFailClose i
  | .recv i => some i
  | .answer _ _ | .readFrame | .readError | .pop | .send | .readFailCAS | .readFailClose
  | .drainPop | .drainSend | .drainDone => none

/-- Call `i` can take its next step. -/
def State.CanStep (cfg : Config ι) (s : State ι) (i : ι) : Prop :=
  ∃ a : Action ι, a.caller = some i ∧ cfg.Enabled s a

/-- A caller that is through its writes without an error has its slot filled
once `readLoop` has returned. -/
theorem slot_filled_of_returned (hs : cfg.system.Reachable s) (hr : s.reader = .returned)
    (hi : s.call i = .unlock false ∨ s.call i = .recv) : s.rc i ≠ none := by
  have hslot := SlotInv.reachable hs
  have hdead := DeadInv.reachable hs
  have hlate : (s.call i).late = true := by
    rcases hi with hi | hi <;> rw [hi] <;> rfl
  have hfifo : i ∉ s.fifo := by
    intro hmem
    have hdoom := hdead.straggler hr i hmem
    rcases hi with hi | hi <;> rw [hi] at hdoom
    · cases hdoom
    · exact hdoom
  have horder := (LockInv.reachable hs).late i hlate
  rw [State.order, List.mem_append] at horder
  have hone := hslot.filled i (horder.resolve_right hfifo) (by rw [hr]; simp [ReadPc.target])
  exact hslot.kept i hone hlate

theorem room_of_returned (hw : 1 ≤ cfg.window) (hs : cfg.system.Reachable s)
    (hr : s.reader = .returned) (hi : s.call i = .push) : s.fifo.length < cfg.window := by
  rw [(DeadInv.reachable hs).pushing hr i hi]
  exact hw

/-- Once `readLoop` has returned, the mutex is the only thing a caller can wait
for. -/
theorem canStep_of_returned (hw : 1 ≤ cfg.window) (hs : cfg.system.Reachable s)
    (hr : s.reader = .returned) (hret : ∀ r, s.call i ≠ .returned r)
    (hlock : s.call i = .lock → s.mu = none) : s.CanStep cfg i := by
  -- A transfer that fails at once is always possible.
  have hwrite (p : List (ι × UInt8)) : s.w.CanWrite s.closed p ⟨0, false⟩ :=
    fun _ => ⟨Nat.zero_le _, fun _ => rfl⟩
  cases hi : s.call i with
  | start => exact ⟨.deadCheck i, rfl, hi⟩
  | lock => exact ⟨.lock i, rfl, hi, hlock hi⟩
  | check => exact ⟨.deadCheckLocked i, rfl, hi⟩
  | unlockDead => exact ⟨.unlockDead i, rfl, hi⟩
  | push => exact ⟨.push i, rfl, hi, room_of_returned hw hs hr hi⟩
  | writeHdr => exact ⟨.writeHdr i ⟨0, false⟩, rfl, hi, hwrite _⟩
  | writeFrame err => exact ⟨.writeFrame i ⟨0, false⟩, rfl, ⟨err, hi⟩, hwrite _⟩
  | flush err => exact ⟨.flush i ⟨0, false⟩, rfl, ⟨err, hi⟩, hwrite _, by simp⟩
  | unlock err => exact ⟨.unlock i, rfl, err, hi⟩
  | failCAS => exact ⟨.callFailCAS i, rfl, hi⟩
  | failClose => exact ⟨.callFailClose i, rfl, hi⟩
  | recv => exact ⟨.recv i, rfl, hi, slot_filled_of_returned hs hr (Or.inr hi)⟩
  | returned r => exact absurd hi (hret r)

/-- **No stranded caller.** In every reachable state in which `readLoop` has
returned: every caller that finished its three writes without an error has a
value in its result slot, no caller is blocked on the push, and a caller that
cannot move is waiting for the mutex of one that can. -/
theorem no_stranded_caller (hw : 1 ≤ cfg.window) (hs : cfg.system.Reachable s)
    (hr : s.reader = .returned) :
    (∀ i, s.call i = .unlock false ∨ s.call i = .recv → s.rc i ≠ none) ∧
    (∀ i, s.call i = .push → s.fifo.length < cfg.window) ∧
    (∀ i, (∀ r, s.call i ≠ .returned r) →
      s.CanStep cfg i ∨
        (s.call i = .lock ∧ ∃ j, s.mu = some j ∧ s.CanStep cfg j)) := by
  refine ⟨fun i hi => slot_filled_of_returned hs hr hi,
    fun i hi => room_of_returned hw hs hr hi, fun i hret => ?_⟩
  by_cases hwait : s.call i = .lock ∧ s.mu ≠ none
  · obtain ⟨j, hj⟩ := Option.ne_none_iff_exists'.mp hwait.2
    have hcrit := ((LockInv.reachable hs).mutex j).mp hj
    refine Or.inr ⟨hwait.1, j, hj, canStep_of_returned hw hs hr ?_ ?_⟩
    · intro r hret'
      rw [hret'] at hcrit
      cases hcrit
    · intro hlock
      rw [hlock] at hcrit
      cases hcrit
  · refine Or.inl (canStep_of_returned hw hs hr hret fun hlock => ?_)
    by_contra hmu
    exact hwait ⟨hlock, hmu⟩

/-- One caller has written its request when the peer goes away; the other is
past its second check of `dead` when `readLoop` drains and returns. -/
def strandedSchedule : List (Action Bool) :=
  [.deadCheck true, .deadCheck false, .lock false, .deadCheckLocked false, .push false,
    .writeHdr false ⟨0, true⟩, .writeFrame false ⟨0, true⟩, .flush false ⟨15, true⟩,
    .unlock false, .lock true, .deadCheckLocked true, .readError, .readFailCAS,
    .readFailClose, .drainPop, .drainSend, .drainDone]

theorem no_stranded_caller_after_peer_close :
    ∃ s, twoCallers.system.Reachable s ∧ s.reader = .returned ∧ s.call false = .recv ∧
      s.call true = .push ∧ s.rc false ≠ none ∧ s.fifo.length < twoCallers.window := by
  have hreplay : (twoCallers.system.replay .initial strandedSchedule).map
      (fun s => (s.reader, s.call false, s.call true)) =
        some (.returned, .recv, .push) := by decide
  obtain ⟨s, hrun, hstate⟩ := System.run_of_replay hreplay rfl
  simp only [Prod.mk.injEq] at hstate
  obtain ⟨hr, hfalse, htrue⟩ := hstate
  have h := no_stranded_caller (by decide) hrun.reachable hr
  exact ⟨s, hrun.reachable, hr, hfalse, htrue, h.1 false (Or.inr hfalse), h.2.1 true htrue⟩

end RostamBench.Netkv.Pconn
