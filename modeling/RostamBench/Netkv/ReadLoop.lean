import RostamBench.Netkv.Pconn

/-!
`readLoop` as a function of what a server may send.

The loop reads from two queues, the byte stream of the socket and `fifo`, and
waits when it finds either empty. What it does with the n-th frame and the n-th
caller does not depend on when they come, so it is a function of the whole stream,
up to the read that fails, and of the callers in the order in which they got into
`fifo`. A stream may break off anywhere.

`Split` is what a stream is, said without the loop: responses that are well-formed,
in frames, and a rest that does not begin with such a frame. Each response goes to
its caller (`readLoop_append`) and the rest ends the loop, with one exception. The
length check adds in 32 bits, so a length within five of the largest one passes it,
and the slice that follows panics.
-/

namespace RostamBench.Netkv.Pconn

open BigEndian

variable {ι : Type*}

/-! ### Frames -/

/-- A response frame. -/
def responseFrame (body : Bytes) : Bytes := bytesOf 4 body.length ++ body

/-- The two `io.ReadFull`s of an iteration; `none` is the failure of one of them. -/
def readFrame (bs : Bytes) : Option (Bytes × Bytes) := do
  let (n, bs) ← takeNat 4 bs
  takeBytes n bs

theorem readFrame_responseFrame {body : Bytes} (h : body.length < 2 ^ 32) (rest : Bytes) :
    readFrame (responseFrame body ++ rest) = some (body, rest) := by
  rw [readFrame, responseFrame, List.append_assoc, takeNat_bytesOf (by omega)]
  exact takeBytes_append rfl rest

theorem readFrame_eq_some {bs body rest : Bytes} (h : readFrame bs = some (body, rest)) :
    bs = responseFrame body ++ rest ∧ body.length < 2 ^ 32 := by
  obtain ⟨⟨n, bs'⟩, hnat, hbytes⟩ := Option.bind_eq_some_iff.mp h
  obtain ⟨rfl, hn⟩ := takeNat_eq_some hnat
  obtain ⟨rfl, rfl⟩ := takeBytes_eq_some hbytes
  exact ⟨by rw [responseFrame, List.append_assoc], by omega⟩

theorem length_lt_of_readFrame {bs body rest : Bytes} (h : readFrame bs = some (body, rest)) :
    rest.length < bs.length := by
  obtain ⟨rfl, -⟩ := readFrame_eq_some h
  rw [responseFrame, List.length_append, List.length_append, length_bytesOf]
  omega

/-! ### The loop -/

inductive Outcome
  | returned
  | panicked
  /-- A frame is there and nobody waits for it. -/
  | waiting
  deriving DecidableEq, Repr

/-- What every caller still in `fifo` gets at the end. -/
def drained (fifo : List ι) : List (ι × Presp) := fifo.map fun rc => (rc, .connDead)

/-- `readLoop`: what it sends to whom, and how it ends. The caller is taken off
`fifo` before the payload is cut out of the body. -/
def readLoop (bs : Bytes) (fifo : List ι) : List (ι × Presp) × Outcome :=
  match _h : readFrame bs with
  | none => (drained fifo, .returned)
  | some (body, rest) =>
      match parseBody body, fifo with
      | .rejected, fifo => (drained fifo, .returned)
      | .panicked, [] | .response _ _, [] => ([], .waiting)
      | .panicked, _ :: _ => ([], .panicked)
      | .response status payload, rc :: fifo =>
          let (sent, outcome) := readLoop rest fifo
          ((rc, { status := status, payload := payload, dead := false }) :: sent, outcome)
termination_by bs.length
decreasing_by exact length_lt_of_readFrame _h

theorem readLoop_of_none {bs : Bytes} (h : readFrame bs = none) (fifo : List ι) :
    readLoop bs fifo = (drained fifo, .returned) := by
  rw [readLoop]
  split
  · rfl
  · rename_i h'
    simp [h] at h'

theorem readLoop_of_some {bs body rest : Bytes} (h : readFrame bs = some (body, rest))
    (fifo : List ι) :
    readLoop bs fifo = match parseBody body, fifo with
      | .rejected, fifo => (drained fifo, .returned)
      | .panicked, [] | .response _ _, [] => ([], .waiting)
      | .panicked, _ :: _ => ([], .panicked)
      | .response status payload, rc :: fifo =>
          ((rc, { status := status, payload := payload, dead := false }) ::
            (readLoop rest fifo).1, (readLoop rest fifo).2) := by
  rw [readLoop]
  split
  · rename_i h'
    simp [h] at h'
  · rename_i body' rest' h'
    obtain ⟨rfl, rfl⟩ := Prod.mk.inj (Option.some.inj (h.symm.trans h'))
    rfl

/-! ### Bodies -/

theorem plenOf_lt (body : Bytes) : plenOf body < 2 ^ 32 := by
  have hlt := natOf_lt ((body.drop 1).take 4)
  have hpow : 256 ^ ((body.drop 1).take 4).length ≤ 256 ^ 4 :=
    Nat.pow_le_pow_right (by omega) (List.length_take_le 4 _)
  exact hlt.trans_le (hpow.trans (by norm_num))

/-- The length of the payload is so large that the check wraps. -/
def LengthWraps (body : Bytes) : Prop := 5 ≤ body.length ∧ 2 ^ 32 ≤ 5 + plenOf body

theorem parseBody_lengthWraps {body : Bytes} (hmax : body.length < 2 ^ 32)
    (h : LengthWraps body) : parseBody body = .panicked := by
  obtain ⟨hlen, hplen⟩ := h
  have hlt := plenOf_lt body
  have hstop : (5 + plenOf body) % 2 ^ 32 = 5 + plenOf body - 2 ^ 32 := by omega
  unfold parseBody
  rw [if_neg (by omega)]
  simp only [hstop, Nat.mod_eq_of_lt hmax]
  -- The end of the slice has wrapped to less than its start.
  rw [if_neg (by omega), if_neg (by omega)]

theorem parseBody_rejected {body : Bytes} (hmax : body.length < 2 ^ 32) (h : ¬ WellFormed body)
    (hwraps : ¬ LengthWraps body) : parseBody body = .rejected := by
  unfold parseBody
  by_cases hlen : body.length < 5
  · rw [if_pos hlen]
  · have hplen : 5 + plenOf body < 2 ^ 32 := by
      by_contra hge
      exact hwraps ⟨by omega, by omega⟩
    have hshort : body.length < 5 + plenOf body := by
      by_contra hge
      exact h ⟨by omega, by omega, hmax⟩
    rw [if_neg hlen]
    simp only [Nat.mod_eq_of_lt hplen, Nat.mod_eq_of_lt hmax]
    rw [if_pos hshort]

/-! ### Streams -/

/-- A stream is well-formed responses and a rest that does not begin with one. -/
structure Split (stream : Bytes) (bodies : List Bytes) (rest : Bytes) : Prop where
  eq : stream = bodies.flatMap responseFrame ++ rest
  wellFormed : ∀ body ∈ bodies, WellFormed body
  stop : ∀ body tail, WellFormed body → rest ≠ responseFrame body ++ tail

theorem exists_split (stream : Bytes) : ∃ bodies rest, Split stream bodies rest := by
  induction hn : stream.length using Nat.strong_induction_on generalizing stream with
  | _ n ih =>
      by_cases hfirst : ∃ body tail, WellFormed body ∧ stream = responseFrame body ++ tail
      · obtain ⟨body, tail, hbody, rfl⟩ := hfirst
        have hlt : tail.length < n := by
          rw [← hn]
          exact length_lt_of_readFrame (readFrame_responseFrame hbody.2.2 tail)
        obtain ⟨bodies, rest, hsplit⟩ := ih _ hlt tail rfl
        refine ⟨body :: bodies, rest, ?_, ?_, hsplit.stop⟩
        · rw [List.flatMap_cons, List.append_assoc, ← hsplit.eq]
        · intro b hb
          rcases List.mem_cons.mp hb with rfl | hb
          · exact hbody
          · exact hsplit.wellFormed b hb
      · refine ⟨[], stream, rfl, by simp, fun body tail hbody heq => ?_⟩
        exact hfirst ⟨body, tail, hbody, heq⟩

/-- The status and exactly the bytes the length announces. -/
def respOf (body : Bytes) : Presp where
  status := body.headD 0
  payload := (body.drop 5).take (plenOf body)
  dead := false

theorem parseBody_eq_respOf {body : Bytes} (h : WellFormed body) :
    parseBody body = .response (respOf body).status (respOf body).payload := by
  rw [parseBody_wellFormed h, respOf, List.drop_take, Nat.add_sub_cancel_left]

/-- Well-formed responses go to the callers one by one. -/
theorem readLoop_append {bodies : List Bytes} (hbodies : ∀ body ∈ bodies, WellFormed body)
    (rest : Bytes) {callers : List ι} (hlen : bodies.length ≤ callers.length) :
    readLoop (bodies.flatMap responseFrame ++ rest) callers =
      (callers.zip (bodies.map respOf) ++ (readLoop rest (callers.drop bodies.length)).1,
        (readLoop rest (callers.drop bodies.length)).2) := by
  induction bodies generalizing callers with
  | nil => simp
  | cons body bodies ih =>
      obtain ⟨rc, callers, rfl⟩ := List.exists_cons_of_length_pos (Nat.zero_lt_of_lt hlen)
      have hbody := hbodies body List.mem_cons_self
      have hread := readFrame_responseFrame hbody.2.2 (bodies.flatMap responseFrame ++ rest)
      have ih := ih (fun b hb => hbodies b (List.mem_cons_of_mem _ hb))
        (Nat.le_of_succ_le_succ hlen)
      rw [List.flatMap_cons, List.append_assoc, readLoop_of_some hread,
        parseBody_eq_respOf hbody]
      simp only [ih]
      rfl

/-- The rest begins with a frame whose payload length wraps. -/
def RestWraps (rest : Bytes) : Prop :=
  ∃ body tail, rest = responseFrame body ++ tail ∧ body.length < 2 ^ 32 ∧ LengthWraps body

/-- The rest ends the loop, or its payload length wraps. -/
theorem readLoop_rest {rest : Bytes}
    (hstop : ∀ body tail, WellFormed body → rest ≠ responseFrame body ++ tail) (fifo : List ι) :
    (¬ RestWraps rest ∧ readLoop rest fifo = (drained fifo, .returned)) ∨
      (RestWraps rest ∧ readLoop rest fifo = ([], if fifo = [] then .waiting else .panicked)) := by
  cases hread : readFrame rest with
  | none =>
      refine Or.inl ⟨?_, readLoop_of_none hread fifo⟩
      rintro ⟨body, tail, rfl, hmax, -⟩
      simp [readFrame_responseFrame hmax] at hread
  | some p =>
      obtain ⟨body, tail⟩ := p
      obtain ⟨rfl, hmax⟩ := readFrame_eq_some hread
      have hbody : ¬ WellFormed body := fun h => hstop body tail h rfl
      by_cases hwraps : LengthWraps body
      · refine Or.inr ⟨⟨body, tail, rfl, hmax, hwraps⟩, ?_⟩
        rw [readLoop_of_some hread, parseBody_lengthWraps hmax hwraps]
        cases fifo with
        | nil => rfl
        | cons rc fifo => rfl
      · refine Or.inl ⟨?_, ?_⟩
        · rintro ⟨body', tail', heq, hmax', hwraps'⟩
          have hread' := readFrame_responseFrame hmax' tail'
          rw [← heq, hread] at hread'
          obtain ⟨rfl, -⟩ := Prod.mk.inj (Option.some.inj hread')
          exact hwraps hwraps'
        · rw [readLoop_of_some hread, parseBody_rejected hmax hbody hwraps]

/-- What the callers of a stream should get. -/
def answersTo (callers : List ι) (bodies : List Bytes) : List (ι × Presp) :=
  callers.zip (bodies.map respOf) ++ drained (callers.drop bodies.length)

/-- Every stream is some well-formed responses and a rest. While requests are
outstanding, the loop delivers the responses in order, ends at the rest and fails
whoever still waits, if and only if the rest does not begin with a frame whose
payload length wraps. -/
theorem response_decoding_safe_iff (stream : Bytes) (callers : List ι) :
    (∃ bodies rest, Split stream bodies rest) ∧
    ∀ bodies rest, Split stream bodies rest → bodies.length ≤ callers.length →
      (readLoop stream callers = (answersTo callers bodies, .returned) ↔ ¬ RestWraps rest) := by
  refine ⟨exists_split stream, ?_⟩
  rintro bodies rest ⟨rfl, hbodies, hstop⟩ hlen
  rw [readLoop_append hbodies rest hlen]
  rcases readLoop_rest hstop (callers.drop bodies.length) with ⟨hwraps, hrest⟩ | ⟨hwraps, hrest⟩
  · refine iff_of_true ?_ hwraps
    rw [hrest, answersTo]
  · refine iff_of_false ?_ (not_not_intro hwraps)
    rw [hrest]
    intro heq
    have houtcome := congrArg Prod.snd heq
    simp only at houtcome
    split at houtcome <;> cases houtcome

/-- One response of one byte, and a header that breaks off. -/
def truncatedStream : Bytes := responseFrame [0, 0, 0, 0, 1, 9] ++ [0, 0]

theorem response_decoding_safe_iff_truncated :
    readLoop truncatedStream [false, true] =
      ([(false, { status := 0, payload := [9], dead := false }), (true, .connDead)],
        .returned) := by
  have hread : readFrame [0, 0] = none := by decide
  have hsplit : Split truncatedStream [[0, 0, 0, 0, 1, 9]] [0, 0] := by
    refine ⟨rfl, by decide, fun body tail hbody heq => ?_⟩
    rw [heq, readFrame_responseFrame hbody.2.2] at hread
    cases hread
  have hwraps : ¬ RestWraps [0, 0] := by
    rintro ⟨body, tail, heq, hmax, -⟩
    rw [heq, readFrame_responseFrame hmax] at hread
    cases hread
  exact ((response_decoding_safe_iff truncatedStream [false, true]).2 _ _ hsplit (by decide)).mpr
    hwraps

/-- A body of five bytes that announces a payload of `2 ^ 32 - 5`. -/
def wrappingBody : Bytes := [0, 255, 255, 255, 251]

/-- The frame is not well-formed, so the waiting caller should be failed; the loop
panics. -/
theorem wrapping_length_panics :
    Split (responseFrame wrappingBody) [] (responseFrame wrappingBody) ∧
      answersTo [()] [] = [((), .connDead)] ∧
      readLoop (responseFrame wrappingBody) [()] = ([], .panicked) := by
  have hread : readFrame (responseFrame wrappingBody) = some (wrappingBody, []) := by decide
  refine ⟨⟨rfl, by simp, fun body tail hbody heq => ?_⟩, rfl, ?_⟩
  · rw [heq, readFrame_responseFrame hbody.2.2] at hread
    obtain ⟨rfl, -⟩ := Prod.mk.inj (Option.some.inj hread)
    revert hbody
    decide
  · have hparse : parseBody wrappingBody = .panicked := by decide
    rw [readLoop_of_some hread, hparse]

end RostamBench.Netkv.Pconn
