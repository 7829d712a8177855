import RostamBench.Vectordbbench.Load

/-!
What `insert_embeddings` reports when it fails.

A call that fails does so in one of its chunks, by a status that is not 200 or by
an exception, and every chunk before that one was acknowledged. `StopsAt` says in
which: the chunks up to it, each as a loop of its own, end well, and then one does
not. That is how every failing run looks (`ends_iff_stopsAt`), because the loop over
some chunks is the loop over the first one followed by the loop over the rest.

A status error reports the start of its chunk, which is the number of points the
chunks before it hold. An exception reports zero wherever it is raised.
-/

namespace RostamBench.Vectordbbench

open BigEndian Effects

variable {p : LoadPath} {c : InsertCall} {start : ℕ} {starts : List ℕ} {k : ℕ}
  {tr : List (Event ClientOp.Answer)} {count : ℕ} {err : PyErr}

/-- The result of a loop that has come to its end. -/
def InsertCall.done (c : InsertCall) : Outcome := .inserted c.metadata.length none

/-- After a loop that has come to its end, `rest`. -/
def InsertCall.andThen (c : InsertCall) (rest : ClientProg) (out : Outcome) : ClientProg :=
  if out = c.done then rest else .ret out

theorem andThen_done (c : InsertCall) (rest : ClientProg) : c.andThen rest c.done = rest :=
  if_pos rfl

theorem andThen_failed (c : InsertCall) (rest : ClientProg) (count : ℕ) (err : PyErr) :
    c.andThen rest (.inserted count (some err)) = .ret (.inserted count (some err)) :=
  if_neg (by simp [InsertCall.done])

/-! ### One chunk after the other -/

/-- The call fails in the chunk of index `k` among those still to come. -/
inductive StopsAt (p : LoadPath) (c : InsertCall) :
    List ℕ → ℕ → List (Event ClientOp.Answer) → ℕ → PyErr → Prop
  | here {start : ℕ} {starts : List ℕ} {tr : List (Event ClientOp.Answer)} {count : ℕ}
      {err : PyErr} (h : (insertFrom p c [start]).Ends tr (.inserted count (some err))) :
      StopsAt p c (start :: starts) 0 tr count err
  | later {start : ℕ} {starts : List ℕ} {k : ℕ} {tr₁ tr₂ : List (Event ClientOp.Answer)}
      {count : ℕ} {err : PyErr} (hchunk : (insertFrom p c [start]).Ends tr₁ c.done)
      (hrest : StopsAt p c starts k tr₂ count err) :
      StopsAt p c (start :: starts) (k + 1) (tr₁ ++ tr₂) count err

theorem tryBinary_bind {route : Route} {body : Except EncodeErr Bytes} {raised : PyErr → Outcome}
    {answered : Reply → ClientProg} {json : ClientProg} {f : Outcome → ClientProg}
    (hraised : ∀ err, f (raised err) = .ret (raised err)) :
    (tryBinary route body raised answered json).bind f =
      tryBinary route body raised (fun r => (answered r).bind f) (json.bind f) := by
  unfold tryBinary
  rw [Prog.bind]
  congr 1
  funext enabled
  cases enabled with
  | false => rfl
  | true =>
      cases body with
      | error err => exact hraised _
      | ok body =>
          simp only [if_true, Prog.bind]
          congr 1
          funext answer
          cases answer with
          | error msg => exact hraised _
          | ok r =>
              by_cases hstatus : r.status ∈ binaryUnsupported
              · simp only [if_pos hstatus, Prog.bind]
                congr 1
                funext proven
                cases proven <;> rfl
              · simp only [if_neg hstatus]

/-- The first chunk, and then the others if it ended well. -/
theorem insertFrom_cons (p : LoadPath) (c : InsertCall) (start : ℕ) (starts : List ℕ) :
    insertFrom p c (start :: starts) =
      (insertFrom p c [start]).bind (c.andThen (insertFrom p c starts)) := by
  have hend : (insertFrom p c []).bind (c.andThen (insertFrom p c starts)) =
      insertFrom p c starts := andThen_done c _
  have hraised (err : PyErr) : c.andThen (insertFrom p c starts) (insertRaised err) =
      .ret (insertRaised err) := andThen_failed c _ 0 err
  rw [insertFrom, insertFrom, tryBinary_bind hraised]
  congr 1
  · funext r
    by_cases hstatus : r.status = 200
    · simp [insertAnswered, hstatus, Prog.bind, hend]
    · simp [insertAnswered, hstatus, Prog.bind, andThen_failed]
  · rw [insertJson, insertJson, Prog.bind]
    congr 1
    funext answer
    cases answer with
    | error msg => exact (hraised _).symm
    | ok r =>
        by_cases hstatus : r.status = 200
        · simp [hstatus, hend]
        · simp [hstatus, Prog.bind, andThen_failed]

theorem ends_iff_stopsAt (starts : List ℕ) :
    (insertFrom p c starts).Ends tr (.inserted count (some err)) ↔
      ∃ k, StopsAt p c starts k tr count err := by
  constructor
  · intro h
    induction starts generalizing tr with
    | nil => cases h
    | cons start starts ih =>
        rw [insertFrom_cons] at h
        obtain ⟨tr₁, out, tr₂, rfl, h₁, h₂⟩ := h.of_bind
        by_cases hout : out = c.done
        · subst hout
          rw [andThen_done] at h₂
          obtain ⟨k, hk⟩ := ih h₂
          exact ⟨k + 1, .later h₁ hk⟩
        · rw [InsertCall.andThen, if_neg hout] at h₂
          cases h₂
          rw [List.append_nil]
          exact ⟨0, .here h₁⟩
  · rintro ⟨k, h⟩
    induction h with
    | @here start starts tr count err h =>
        rw [insertFrom_cons, ← List.append_nil tr]
        refine h.bind ?_
        rw [andThen_failed]
        exact .ret _
    | later hchunk _ ih =>
        rw [insertFrom_cons]
        refine hchunk.bind ?_
        rw [andThen_done]
        exact ih

/-! ### What a chunk applies -/

/-- A chunk that ends well applies its points; one that does not applies nothing,
and reports its start or, for an exception, zero. -/
theorem chunk_ends (hlen : c.metadata.length = c.rows.rows.length) {out : Outcome}
    (h : (insertFrom p c [start]).Ends tr out) :
    (out = c.done ∧
        applied tr = (jsonBody (c.ids start) (c.chunk start) p.payloads p.inline).points) ∨
      ∃ count err, out = .inserted count (some err) ∧ applied tr = [] ∧
        (err.IsException → count = 0) ∧ (¬ err.IsException → count = start) := by
  let Q : List (Event ClientOp.Answer) → Outcome → Prop := fun tr out =>
    (out = c.done ∧
        applied tr = (jsonBody (c.ids start) (c.chunk start) p.payloads p.inline).points) ∨
      ∃ count err, out = .inserted count (some err) ∧ applied tr = [] ∧
        (err.IsException → count = 0) ∧ (¬ err.IsException → count = start)
  have hensures : (insertFrom p c [start]).Ensures Q [] := by
    refine ensures_insertFrom_cons hlen ?_ ?_ ?_
    · intro err tr herr htr
      exact Or.inr ⟨0, err, rfl, htr, fun _ => rfl, fun hne => absurd herr hne⟩
    · intro r tr htr
      refine Or.inr ⟨start, insertFailed start r, rfl, htr, ?_, fun _ => rfl⟩
      exact fun hexc => hexc.elim
    · intro tr htr
      exact Or.inl ⟨rfl, htr⟩
  exact hensures.of_ends h

/-- A chunk that is not the last one holds a full batch of points. -/
theorem length_points_chunk (hlen : c.metadata.length = c.rows.rows.length)
    (hfull : start + insertBatch ≤ c.metadata.length) :
    (jsonBody (c.ids start) (c.chunk start) p.payloads p.inline).points.length = insertBatch := by
  have hpoints : (c.points p).length = c.metadata.length := by
    simp [InsertCall.points, jsonBody, hlen]
  rw [points_chunk, List.length_take, List.length_drop, hpoints]
  omega

/-- What is acknowledged before the chunk that fails, and what is reported then.
`j` chunks are behind. -/
theorem StopsAt.counts (hlen : c.metadata.length = c.rows.rows.length) {j m : ℕ}
    (hjm : j + m = (c.metadata.length + (insertBatch - 1)) / insertBatch)
    (h : StopsAt p c ((List.range' j m).map (· * insertBatch)) k tr count err) :
    (applied tr).length = k * insertBatch ∧ (err.IsException → count = 0) ∧
      (¬ err.IsException → count = (j + k) * insertBatch) := by
  induction m generalizing j k tr with
  | zero => cases h
  | succ m ih =>
      rw [List.range'_succ, List.map_cons] at h
      cases h with
      | here h =>
          rcases chunk_ends hlen h with ⟨hout, -⟩ | ⟨count', err', hout, htr, hexc, hstatus⟩
          · cases hout
          · cases hout
            exact ⟨by simp [htr], hexc, by simpa using hstatus⟩
      | @later _ _ k tr₁ tr₂ _ _ hchunk hrest =>
          obtain ⟨htr₂, hexc, hstatus⟩ := ih (by omega) hrest
          -- There is a chunk after this one.
          have hm : m ≠ 0 := by
            rintro rfl
            cases hrest
          have hfull : j * insertBatch + insertBatch ≤ c.metadata.length := by
            simp only [insertBatch] at hjm ⊢
            omega
          have htr₁ : (applied tr₁).length = insertBatch := by
            rcases chunk_ends hlen hchunk with ⟨-, htr₁⟩ | ⟨count', err', hout, -⟩
            · rw [htr₁, length_points_chunk hlen hfull]
            · cases hout
          refine ⟨?_, hexc, fun hne => ?_⟩
          · rw [applied, List.flatMap_append, List.length_append]
            rw [applied] at htr₁ htr₂
            rw [htr₁, htr₂]
            ring
          · rw [hstatus hne]
            ring

/-! ### The count of a failed call -/

/-- Every call that fails does so in one of its chunks, with the chunks before it
acknowledged. The count it returns is the number of points acknowledged if and only
if it is a status error, or the exception was raised in the first chunk. -/
theorem failed_count_iff_first_chunk (p : LoadPath)
    (hlen : c.metadata.length = c.rows.rows.length) :
    (∀ tr count err, (insertEmbeddings p c).Ends tr (.inserted count (some err)) ↔
      ∃ k, StopsAt p c (chunkStarts c.metadata.length) k tr count err) ∧
    ∀ k tr count err, StopsAt p c (chunkStarts c.metadata.length) k tr count err →
      (count = (applied tr).length ↔ (err.IsException → k = 0)) := by
  refine ⟨fun _ _ _ => ends_iff_stopsAt _, fun k tr count err h => ?_⟩
  rw [chunkStarts, List.range_eq_range'] at h
  obtain ⟨htr, hexc, hstatus⟩ := h.counts hlen (Nat.zero_add _)
  rw [htr]
  by_cases herr : err.IsException
  · rw [hexc herr]
    simp [herr, insertBatch, eq_comm]
  · rw [hstatus herr]
    simp [herr]

/-- The answers to a chunk that goes out as JSON. -/
def jsonChunk (c : InsertCall) (start : ℕ) (answer : PostAnswer) : List (Event ClientOp.Answer) :=
  [⟨.enabled .bulk, false⟩,
    ⟨.post .pointsBulk (.points (jsonBody (c.ids start) (c.chunk start) false false)), answer⟩]

/-- A request that times out in the first chunk. -/
theorem failed_count_iff_first_chunk_one_point :
    (insertEmbeddings .bulk (onePoint 3)).Ends (jsonChunk (onePoint 3) 0 (.error "timeout"))
        (.inserted 0 (some (.requestError "timeout"))) ∧
      0 = (applied (jsonChunk (onePoint 3) 0 (.error "timeout"))).length := by
  have hstops : StopsAt .bulk (onePoint 3) (chunkStarts (onePoint 3).metadata.length) 0
      (jsonChunk (onePoint 3) 0 (.error "timeout")) 0 (.requestError "timeout") :=
    .here (.op (.op (.ret _)))
  have hlen : (onePoint 3).metadata.length = (onePoint 3).rows.rows.length := rfl
  obtain ⟨hends, hcount⟩ := failed_count_iff_first_chunk .bulk hlen
  exact ⟨(hends _ _ _).mpr ⟨0, hstops⟩, (hcount 0 _ _ _ hstops).mpr fun _ => rfl⟩

/-- A call with `n` points at the origin. -/
def origins (n : ℕ) : InsertCall where
  metadata := (List.range n).map Int.ofNat
  rows := { dim := 1, rows := List.replicate n [0], shape := by simp }

theorem length_origins (n : ℕ) : (origins n).metadata.length = n := by simp [origins]

/-- The first chunk is acknowledged and the second one times out: a thousand points
are loaded and zero reported. -/
theorem exception_reports_nothing :
    ∃ tr, (insertEmbeddings .bulk (origins 1001)).Ends tr
        (.inserted 0 (some (.requestError "timeout"))) ∧
      (applied tr).length = 1000 := by
  have hlen (n : ℕ) : (origins n).metadata.length = (origins n).rows.rows.length := by
    simp [origins]
  have hstarts : chunkStarts (origins 1001).metadata.length = [0, 1000] := by
    rw [length_origins]
    decide
  refine ⟨jsonChunk (origins 1001) 0 (okReply 200) ++
    jsonChunk (origins 1001) 1000 (.error "timeout"), ?_, ?_⟩
  · rw [insertEmbeddings, hstarts]
    exact .op (.op (.op (.op (.ret _))))
  · have hfull : 0 + insertBatch ≤ (origins 1001).metadata.length := by
      rw [length_origins]
      decide
    have hpoints := length_points_chunk (p := .bulk) (hlen 1001) hfull
    have happlied : applied (jsonChunk (origins 1001) 0 (okReply 200) ++
        jsonChunk (origins 1001) 1000 (.error "timeout")) =
        (jsonBody ((origins 1001).ids 0) ((origins 1001).chunk 0) false false).points := by
      simp [applied, jsonChunk, appliedBy, okReply, Body.carries]
    rw [happlied]
    exact hpoints

end RostamBench.Vectordbbench
