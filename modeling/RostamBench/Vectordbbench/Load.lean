import RostamBench.Lib.Interleave
import RostamBench.Vectordbbench.Client

/-!
What a load applies, over any interleaving of `insert_embeddings` calls that
share a client.

The calls share the wire flags, so whether a call sends a chunk as RVB1 or as
JSON, or first one and then the other, depends on what the others have been
answered. None of that matters to what is applied: a chunk is sent a second time
only after an answer that applied nothing, and a 200 is never followed by another
attempt. So the argument needs nothing of the shared flags but that a read of one
returns something (`Prog.Ensures`), and holds in every interleaving by the rule
of `Interleave`.

A 200 applies the points its body means; any other answer applies nothing.
-/

namespace RostamBench.Vectordbbench

open BigEndian Effects Transition

/-- The flags as several calls share them; a request is answered by `ans`. -/
def sharedAct (ans : PostAnswer) : Act (Wire → WireFlags) ClientOp.Answer
  | .enabled w, s => (s, (s w).enabled)
  | .proven w, s => (s, (s w).proven)
  | .disable w, s => (Function.update s w { s w with enabled := false }, ())
  | .prove w, s => (Function.update s w { s w with proven := true }, ())
  | .post _ _, s => (s, ans)

/-- The points a body carries, by the grammar of its framing. -/
def Body.carries : Body → List Point
  | .octets b => ((decodeBulk b).map BulkRequest.points).getD []
  | .points b => b.points
  | .query _ => []

/-- The points one event applies. -/
def appliedBy : Event ClientOp.Answer → List Point
  | ⟨.post _ body, .ok r⟩ => if r.status = 200 then body.carries else []
  | ⟨.post _ _, .error _⟩ => []
  | ⟨.enabled _, _⟩ | ⟨.proven _, _⟩ | ⟨.disable _, _⟩ | ⟨.prove _, _⟩ => []

/-- The points the requests of a call have applied, in order. -/
def applied (tr : List (Event ClientOp.Answer)) : List Point := tr.flatMap appliedBy

theorem applied_append (tr : List (Event ClientOp.Answer)) (e : Event ClientOp.Answer) :
    applied (tr ++ [e]) = applied tr ++ appliedBy e := by
  simp [applied]

/-- The points of a call, as the JSON bodies would list them. -/
def InsertCall.points (p : LoadPath) (c : InsertCall) : List Point :=
  (jsonBody c.metadata c.rows p.payloads p.inline).points

/-! ### Chunks -/

variable {p : LoadPath} {c : InsertCall}

/-- A chunk is a slice of the points. -/
theorem points_chunk (p : LoadPath) (c : InsertCall) (start : ℕ) :
    (jsonBody (c.ids start) (c.chunk start) p.payloads p.inline).points =
      ((c.points p).drop start).take (min (start + insertBatch) c.metadata.length - start) := by
  simp only [jsonBody, InsertCall.ids, InsertCall.chunk, F32Array.slice, InsertCall.points]
  rw [List.zip, ← List.take_zipWith, ← List.drop_zipWith, List.map_take, List.map_drop]

theorem length_chunk (hlen : c.metadata.length = c.rows.rows.length) (start : ℕ) :
    (c.ids start).length = (c.chunk start).rows.length := by
  simp [InsertCall.ids, InsertCall.chunk, F32Array.slice, hlen]

/-! ### One chunk -/

/-- What the `except` clause of `insert_embeddings` gets to catch. -/
def PyErr.IsException : PyErr → Prop
  | .encode _ | .requestError _ => True
  | .runtimeError _ | .unknownLoadPath _ | .valueError _ | .httpError _ => False

section Chunk

variable {Q : List (Event ClientOp.Answer) → Outcome → Prop} {past : List (Event ClientOp.Answer)}

/-- Before the JSON request, or when something raises, a binary one has applied
nothing; before `answered` it has applied its body if the answer was 200. -/
theorem ensures_tryBinary {route : Route} {body : Except EncodeErr Bytes}
    {raised : PyErr → Outcome} {answered : Reply → ClientProg} {json : ClientProg}
    (hraised : ∀ err tr, err.IsException → applied tr = applied past → Q tr (raised err))
    (hjson : ∀ tr, applied tr = applied past → json.Ensures Q tr)
    (hanswered : ∀ b r tr, body = .ok b →
      applied tr = applied past ++ (if r.status = 200 then (Body.octets b).carries else []) →
      (answered r).Ensures Q tr) :
    (tryBinary route body raised answered json).Ensures Q past := by
  unfold tryBinary
  rintro (_ | _)
  · exact hjson _ (by simp [applied, appliedBy])
  · cases body with
    | error err => exact hraised (.encode err) _ trivial (by simp [applied, appliedBy])
    | ok b =>
        rintro (msg | r)
        · exact hraised (.requestError msg) _ trivial (by simp [applied, appliedBy])
        · by_cases hstatus : r.status ∈ binaryUnsupported
          · -- A rejected body was not applied, so it may be sent again.
            have hne : r.status ≠ 200 := by
              rintro h
              rw [h] at hstatus
              exact absurd hstatus (by decide)
            simp only [if_pos hstatus]
            rintro (_ | _)
            · intro _
              exact hjson _ (by simp [applied, appliedBy, hne])
            · exact hanswered b r _ rfl (by simp [applied, appliedBy])
          · simp only [if_neg hstatus]
            exact hanswered b r _ rfl (by simp [applied, appliedBy])

theorem ensures_insertJson {start : ℕ} {rest : ClientProg}
    (hraised : ∀ err tr, err.IsException → applied tr = applied past → Q tr (insertRaised err))
    (hfailed : ∀ r tr, applied tr = applied past →
      Q tr (.inserted start (some (insertFailed start r))))
    (hrest : ∀ tr, applied tr = applied past ++
      (jsonBody (c.ids start) (c.chunk start) p.payloads p.inline).points → rest.Ensures Q tr) :
    (insertJson p c start rest).Ensures Q past := by
  rw [insertJson]
  rintro (msg | r)
  · exact hraised (.requestError msg) _ trivial (by simp [applied, appliedBy])
  · by_cases hstatus : r.status = 200
    · simp only [hstatus, ne_eq, not_true_eq_false, if_false]
      exact hrest _ (by simp [applied, appliedBy, hstatus, Body.carries])
    · simp only [ne_eq, hstatus, not_false_eq_true, if_true]
      exact hfailed r _ (by simp [applied_append, appliedBy, hstatus])

theorem ensures_insertAnswered {start : ℕ} {rest : ClientProg} {r : Reply} {b : Body}
    {tr : List (Event ClientOp.Answer)}
    (htr : applied tr = applied past ++ (if r.status = 200 then b.carries else []))
    (hfailed : ∀ r tr, applied tr = applied past →
      Q tr (.inserted start (some (insertFailed start r))))
    (hrest : ∀ tr, applied tr = applied past ++ b.carries → rest.Ensures Q tr) :
    (insertAnswered start rest r).Ensures Q tr := by
  rw [insertAnswered]
  by_cases hstatus : r.status = 200
  · simp only [hstatus, ne_eq, not_true_eq_false, if_false]
    intro _
    exact hrest _ (by simp [applied_append, appliedBy, htr, hstatus])
  · simp only [ne_eq, hstatus, not_false_eq_true, if_true]
    exact hfailed r tr (by simp [htr, hstatus])

/-- A chunk either applies its points and goes on, or applies nothing and ends the
call. -/
theorem ensures_insertFrom_cons (hlen : c.metadata.length = c.rows.rows.length) {start : ℕ}
    {starts : List ℕ}
    (hraised : ∀ err tr, err.IsException → applied tr = applied past → Q tr (insertRaised err))
    (hfailed : ∀ r tr, applied tr = applied past →
      Q tr (.inserted start (some (insertFailed start r))))
    (hrest : ∀ tr, applied tr = applied past ++
      (jsonBody (c.ids start) (c.chunk start) p.payloads p.inline).points →
      (insertFrom p c starts).Ensures Q tr) :
    (insertFrom p c (start :: starts)).Ensures Q past := by
  rw [insertFrom]
  refine ensures_tryBinary hraised ?_ ?_
  · intro tr htr
    rw [← htr] at hraised hfailed hrest
    exact ensures_insertJson hraised hfailed hrest
  · intro b r tr hb htr
    refine ensures_insertAnswered htr hfailed fun tr' htr' => hrest tr' ?_
    rw [htr', Body.carries, decodeBulk_of_ok (length_chunk hlen _) hb]
    rfl

end Chunk

/-- What a call promises: everything applied when it returns no error, and as
much as it reports when it returns its own. -/
def Reports (p : LoadPath) (c : InsertCall) (tr : List (Event ClientOp.Answer)) :
    Outcome → Prop
  | .inserted count none => count = c.metadata.length ∧ applied tr = c.points p
  | .inserted start (some (.runtimeError _)) => applied tr = (c.points p).take start
  | .inserted _ (some _) | .searched _ => True

/-! ### The loop -/

theorem ensures_insertFrom (hlen : c.metadata.length = c.rows.rows.length) (k j : ℕ)
    (hjk : j + k = (c.metadata.length + (insertBatch - 1)) / insertBatch)
    {past : List (Event ClientOp.Answer)}
    (hpast : applied past = (c.points p).take (j * insertBatch)) :
    (insertFrom p c ((List.range' j k).map (· * insertBatch))).Ensures (Reports p c) past := by
  have hpoints : (c.points p).length = c.metadata.length := by
    simp [InsertCall.points, jsonBody, hlen]
  -- On the chunks still to be sent: `j` are behind, and their points applied.
  induction k generalizing j past with
  | zero =>
      refine ⟨rfl, ?_⟩
      rw [hpast, List.take_of_length_le]
      rw [hpoints]
      simp only [insertBatch] at hjk ⊢
      omega
  | succ k ih =>
      have hchunk : ∀ tr, applied tr = applied past ++
          (jsonBody (c.ids (j * insertBatch)) (c.chunk (j * insertBatch)) p.payloads
            p.inline).points →
          applied tr = (c.points p).take ((j + 1) * insertBatch) := by
        intro tr htr
        have hstop : j * insertBatch +
            (min (j * insertBatch + insertBatch) c.metadata.length - j * insertBatch) =
            min ((j + 1) * insertBatch) (c.points p).length := by
          rw [hpoints]
          simp only [insertBatch] at hjk ⊢
          omega
        rw [htr, hpast, points_chunk, ← List.take_add, hstop, ← List.take_eq_take_min]
      rw [List.range'_succ, List.map_cons]
      refine ensures_insertFrom_cons hlen ?_ ?_ ?_
      · intro err tr herr _
        cases err with
        | encode | requestError => trivial
        | runtimeError | unknownLoadPath | valueError | httpError => exact herr.elim
      · intro r tr htr
        exact htr.trans hpast
      · intro tr htr
        exact ih (j + 1) (by omega) (hchunk tr htr)

theorem ensures_insertEmbeddings (p : LoadPath)
    (hlen : c.metadata.length = c.rows.rows.length) :
    (insertEmbeddings p c).Ensures (Reports p c) [] := by
  rw [insertEmbeddings, chunkStarts, List.range_eq_range']
  exact ensures_insertFrom hlen _ 0 (Nat.zero_add _) (by simp [applied])

/-! ### Any interleaving -/

/-- Any number of inserts on one client, from any setting of its flags. -/
def loadSystem {ι : Type*} [DecidableEq ι] (p : LoadPath) (calls : ι → InsertCall) :
    System (Interleave.State (Wire → WireFlags) ι ClientOp.Answer Outcome) (ι × PostAnswer) :=
  Interleave.system sharedAct (fun _ => True) fun i => insertEmbeddings p (calls i)

/-- Whatever the load path, the flags, the other calls and the answers: a call
that returns no error reports all its points and has applied each of them once,
in order; a call that returns its own error has applied exactly the points before
the chunk it names, each once. -/
theorem load_applies_exactly_once {ι : Type*} [DecidableEq ι] (p : LoadPath)
    (calls : ι → InsertCall)
    (hlen : ∀ i, (calls i).metadata.length = (calls i).rows.rows.length)
    {s : Interleave.State (Wire → WireFlags) ι ClientOp.Answer Outcome}
    (hs : (loadSystem p calls).Reachable s) (i : ι) :
    (∀ count, s.prog i = .ret (.inserted count none) →
      count = (calls i).metadata.length ∧ applied (s.trace i) = (calls i).points p) ∧
    (∀ start msg, s.prog i = .ret (.inserted start (some (.runtimeError msg))) →
      applied (s.trace i) = ((calls i).points p).take start) := by
  have hensures := Interleave.ensures_of_reachable
    (fun i => ensures_insertEmbeddings p (hlen i)) hs i
  constructor
  · intro count hret
    rw [hret] at hensures
    exact hensures
  · intro start msg hret
    rw [hret] at hensures
    exact hensures

def okReply (status : ℕ) : PostAnswer := .ok { status := status, text := "", hits := .ok [] }

/-- The first call's binary chunk is rejected, the second call's is taken, and
then the first call, which has not seen that, falls back and sends JSON. -/
def fallBackLate : List (Bool × PostAnswer) :=
  [(false, okReply 0), (true, okReply 0), (false, okReply 400), (false, okReply 0),
   (true, okReply 200), (true, okReply 0), (false, okReply 0), (false, okReply 200)]

theorem load_applies_exactly_once_two_calls :
    ∃ s, (loadSystem .payload fun i => onePoint (if i then 7 else 3)).Reachable s ∧
      s.prog false = .ret (.inserted 1 none) ∧
      applied (s.trace false) = (onePoint 3).points .payload := by
  have hreplay : ((Interleave.system sharedAct (fun _ => True) fun i : Bool =>
      insertEmbeddings .payload (onePoint (if i then 7 else 3))).replay
      { shared := fun _ => { enabled := true, proven := false }
        prog := fun i => insertEmbeddings .payload (onePoint (if i then 7 else 3))
        trace := fun _ => [] } fallBackLate).map (fun s => (s.prog false).result) =
      some (some (.inserted 1 none)) := by decide +kernel
  obtain ⟨s, hrun, hresult⟩ := System.run_of_replay hreplay ⟨trivial, rfl, rfl⟩
  have hret := Prog.eq_ret_of_result hresult
  have h := load_applies_exactly_once .payload
    (fun i : Bool => onePoint (if i then 7 else 3)) (fun _ => rfl) hrun.reachable false
  exact ⟨s, hrun.reachable, hret, (h.1 1 hret).2⟩

end RostamBench.Vectordbbench
