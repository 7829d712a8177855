import RostamBench.Lib.JsonDoc
import RostamBench.Netvec.Run

/-!
The request bodies of `netvec`, as they are put together in the buffer of a worker.

Both loops write a comma before every point but the first, and tell the first one by
its index in `run` and by its id in `runBulk`. A worker has one buffer for all its
requests and resets it before each. The vectors are rendered beforehand; all that is
assumed of them is that each is the text of a JSON array.

Each body is the text of one object, with the points that were written and nothing
else in it (`bodies_parse`), and so is every body a worker of `run` posts
(`worker_bodies_parse`).
-/

namespace RostamBench.Netvec

open BigEndian
open Json (Doc Reads commas keyText natText encode)

/-- What `writePoint` is called with. -/
structure Point where
  id : ℕ
  vec : Bytes

/-! ### The buffer -/

/-- `buf.Reset()`. -/
def reset (_ : Bytes) : Bytes := []

/-- The first `n` points, with a comma before those that `sep` holds of. -/
def writePoints (sep : ℕ → Bool) (pt : ℕ → Point) (n : ℕ) (buf : Bytes) : Bytes :=
  (List.range n).foldl
    (fun buf i => (if sep i then buf ++ text "," else buf) ++ writePoint (pt i).id (pt i).vec) buf

/-- The buffer of `run` before a post; `pt` are the points as they are drawn. -/
def runBody (batch : ℤ) (pt : ℕ → Point) (buf : Bytes) : Bytes :=
  let buf := reset buf
  if 1 < batch then
    let buf := buf ++ text "\x7b\"upsert\":true,\"points\":["
    let buf := writePoints (fun i => decide (0 < i)) pt batch.toNat buf
    buf ++ text "]\x7d"
  else
    let buf := buf ++ text "\x7b\"upsert\":true,"
    let buf := buf ++ text "\"id\":"
    let buf := buf ++ formatUint (pt 0).id
    let buf := buf ++ text ",\"vector\":"
    let buf := buf ++ (pt 0).vec
    buf ++ text "\x7d"

/-- The ids `lo` up to `hi`, which is not one of them. -/
structure Job where
  lo : Int64
  hi : Int64
  deriving DecidableEq, Repr

/-- How often the loop over the ids runs. -/
def Job.count (j : Job) : ℕ := (j.hi.toInt - j.lo.toInt).toNat

/-- The value of `id` in the round `i`. -/
def Job.id (j : Job) (i : ℕ) : Int64 := j.lo + Int64.ofNat i

/-- `uint64(id)`. -/
def Job.pointId (j : Job) (i : ℕ) : ℕ := (j.id i).toUInt64.toNat

/-- The buffer of `runBulk` before a post; `vec` are the vectors as they are drawn. -/
def stageBody (j : Job) (vec : ℕ → Bytes) (buf : Bytes) : Bytes :=
  let buf := reset buf
  let buf := buf ++ text "\x7b\"points\":["
  let buf := writePoints (fun i => decide (j.lo < j.id i)) (fun i => ⟨j.pointId i, vec i⟩) j.count
    buf
  buf ++ text "]\x7d"

/-! What was in the buffer is gone. -/

theorem runBody_batch {batch : ℤ} (hbatch : 1 < batch) (pt : ℕ → Point) (buf : Bytes) :
    runBody batch pt buf =
      writePoints (fun i => decide (0 < i)) pt batch.toNat
        (text "\x7b\"upsert\":true,\"points\":[") ++ text "]\x7d" := by
  rw [runBody, if_pos hbatch]
  rfl

theorem runBody_single {batch : ℤ} (hbatch : ¬ 1 < batch) (pt : ℕ → Point) (buf : Bytes) :
    runBody batch pt buf =
      text "\x7b\"upsert\":true," ++ text "\"id\":" ++ formatUint (pt 0).id ++
        text ",\"vector\":" ++ (pt 0).vec ++ text "\x7d" := by
  rw [runBody, if_neg hbatch]
  rfl

theorem stageBody_eq (j : Job) (vec : ℕ → Bytes) (buf : Bytes) :
    stageBody j vec buf =
      writePoints (fun i => decide (j.lo < j.id i)) (fun i => ⟨j.pointId i, vec i⟩) j.count
        (text "\x7b\"points\":[") ++ text "]\x7d" :=
  rfl

/-! ### Separators -/

theorem flatten_intersperse_concat {α : Type*} {sep x : List α} {xs : List (List α)}
    (hne : xs ≠ []) :
    ((xs ++ [x]).intersperse sep).flatten = (xs.intersperse sep).flatten ++ sep ++ x := by
  induction xs with
  | nil => exact absurd rfl hne
  | cons y xs ih =>
      cases xs with
      | nil => simp
      | cons z xs =>
          have ih := ih (by simp)
          simp only [List.cons_append, List.intersperse_cons_cons, List.flatten_cons] at ih ⊢
          rw [ih]
          simp only [List.append_assoc]

/-- Commas between points, and nowhere else. -/
theorem writePoints_eq {sep : ℕ → Bool} (pt : ℕ → Point) {n : ℕ} (hfirst : sep 0 = false)
    (hrest : ∀ i < n, 0 < i → sep i = true) (buf : Bytes) :
    writePoints sep pt n buf = buf ++
      (((List.range n).map fun i => writePoint (pt i).id (pt i).vec).intersperse
        (text ",")).flatten := by
  induction n with
  | zero => simp [writePoints]
  | succ n ih =>
      have ih := ih fun i hi => hrest i (Nat.lt_succ_of_lt hi)
      rw [writePoints] at ih ⊢
      rw [List.range_succ, List.foldl_append, ih, List.foldl_cons, List.foldl_nil, List.map_append,
        List.map_cons, List.map_nil]
      rcases Nat.eq_zero_or_pos n with rfl | hn
      · simp [hfirst]
      · rw [flatten_intersperse_concat (by simpa using Nat.ne_of_gt hn), if_pos (hrest n (by omega) hn)]
        simp only [List.append_assoc]

/-! ### Texts of points -/

/-- The text of a point whose vector has the text `cs`. -/
def pointText (id : ℕ) (cs : List Char) : List Char :=
  '{' :: (commas [keyText "id".toList ++ natText id, keyText "vector".toList ++ cs] ++ ['}'])

/-- What a point is read as. -/
def pointDoc (id : ℕ) (items : List Doc) : Doc :=
  .obj [("id".toList, .num (natText id)), ("vector".toList, .arr items)]

def idMember (id : ℕ) : Json.Member where
  key := "id".toList
  text := natText id
  doc := .num (natText id)
  plain := by decide
  reads := Reads.nat id

def vectorMember {cs : List Char} {items : List Doc} (h : Reads cs (.arr items)) :
    Json.Member where
  key := "vector".toList
  text := cs
  doc := .arr items
  plain := by decide
  reads := h

def upsertMember : Json.Member where
  key := "upsert".toList
  text := ['t', 'r', 'u', 'e']
  doc := .bool true
  plain := by decide
  reads := Reads.trueText

theorem reads_pointText {cs : List Char} {items : List Doc} (id : ℕ) (h : Reads cs (.arr items)) :
    Reads (pointText id cs) (pointDoc id items) :=
  Reads.obj [idMember id, vectorMember h] (by simp)

/-- The points of a body, as an array. -/
def pointsMember {n : ℕ} {cs : ℕ → List Char} {items : ℕ → List Doc} (ids : ℕ → ℕ) (hn : 0 < n)
    (h : ∀ i < n, Reads (cs i) (.arr (items i))) : Json.Member where
  key := "points".toList
  text := '[' :: (commas ((List.range n).map fun i => pointText (ids i) (cs i)) ++ [']'])
  doc := .arr ((List.range n).map fun i => pointDoc (ids i) (items i))
  plain := by decide
  reads := by
    let points : List Json.Item := (List.range n).pmap
      (fun i hi => ⟨_, _, reads_pointText (ids i) (h i hi)⟩) fun i hi => List.mem_range.mp hi
    have hne : points ≠ [] := by
      simpa [points] using Nat.ne_of_gt hn
    have harr := Reads.arr points hne
    simpa [points, List.map_pmap] using harr

theorem pointsMember_line {n : ℕ} {cs : ℕ → List Char} {items : ℕ → List Doc} (ids : ℕ → ℕ)
    (hn : 0 < n) (h : ∀ i < n, Reads (cs i) (.arr (items i))) :
    (pointsMember ids hn h).line = keyText "points".toList ++
      '[' :: (commas ((List.range n).map fun i => pointText (ids i) (cs i)) ++ [']']) :=
  rfl

/-! ### Texts and bytes -/

theorem pointText_eq (id : ℕ) (cs : List Char) :
    pointText id cs = "\x7b\"id\":".toList ++ natText id ++ ",\"vector\":".toList ++ cs ++
      "\x7d".toList := by
  have hopen : '{' :: keyText "id".toList = "\x7b\"id\":".toList := by decide
  have hvector : ',' :: keyText "vector".toList = ",\"vector\":".toList := by decide
  have hclose : ['}'] = "\x7d".toList := by decide
  rw [pointText, Json.commas_cons_cons, Json.commas_singleton, ← hopen, ← hvector, ← hclose]
  simp only [List.append_assoc, List.cons_append]

theorem writePoint_encode (id : ℕ) (cs : List Char) :
    writePoint id (encode cs) = encode (pointText id cs) := by
  rw [pointText_eq, Json.encode_append, Json.encode_append, Json.encode_append, Json.encode_append]
  rfl

theorem encode_commas (texts : List (List Char)) :
    encode (commas texts) = ((texts.map encode).intersperse (text ",")).flatten := by
  induction texts with
  | nil => rfl
  | cons cs texts ih =>
      cases texts with
      | nil => simp [Json.commas_singleton]
      | cons cs' texts =>
          rw [Json.commas_cons_cons, Json.encode_append, List.map_cons, List.map_cons,
            List.intersperse_cons_cons, List.flatten_cons, List.flatten_cons, ← List.map_cons, ← ih]
          rfl

/-- The bytes of `n` points are those of their texts. -/
theorem encode_points {n : ℕ} {pt : ℕ → Point} {cs : ℕ → List Char}
    (h : ∀ i < n, (pt i).vec = encode (cs i)) :
    (((List.range n).map fun i => writePoint (pt i).id (pt i).vec).intersperse
      (text ",")).flatten =
      encode (commas ((List.range n).map fun i => pointText (pt i).id (cs i))) := by
  have hmap : ((List.range n).map fun i => writePoint (pt i).id (pt i).vec) =
      ((List.range n).map fun i => pointText (pt i).id (cs i)).map encode := by
    rw [List.map_map]
    apply List.map_congr_left
    intro i hi
    rw [h i (List.mem_range.mp hi), writePoint_encode]
    rfl
  rw [hmap, encode_commas]

/-- The vectors of a body as texts. -/
theorem exists_texts {n : ℕ} {vec : ℕ → Bytes} {items : ℕ → List Doc}
    (h : ∀ i < n, Doc.loads (vec i) = some (.arr (items i))) :
    ∃ cs : ℕ → List Char, ∀ i < n, vec i = encode (cs i) ∧ Reads (cs i) (.arr (items i)) := by
  have hex : ∀ i, ∃ cs, i < n → vec i = encode cs ∧ Reads cs (.arr (items i)) := by
    intro i
    by_cases hi : i < n
    · obtain ⟨cs, hvec, hread⟩ := Doc.exists_text (h i hi)
      exact ⟨cs, fun _ => ⟨hvec, Reads.of_read hread⟩⟩
    · exact ⟨[], fun hlt => absurd hlt hi⟩
  choose cs hcs using hex
  exact ⟨cs, hcs⟩

/-! ### Bodies -/

/-- The object a body of `run` is read as. -/
def runDoc (batch : ℤ) (id : ℕ → ℕ) (items : ℕ → List Doc) : Doc :=
  if 1 < batch then
    .obj [("upsert".toList, .bool true),
      ("points".toList, .arr ((List.range batch.toNat).map fun i => pointDoc (id i) (items i)))]
  else
    .obj [("upsert".toList, .bool true), ("id".toList, .num (natText (id 0))),
      ("vector".toList, .arr (items 0))]

/-- The object a body of `runBulk` is read as. -/
def stageDoc (j : Job) (items : ℕ → List Doc) : Doc :=
  .obj [("points".toList, .arr ((List.range j.count).map fun i => pointDoc (j.pointId i) (items i)))]

theorem loads_encode_of_reads {cs : List Char} {d : Doc} (h : Reads cs d) :
    Doc.loads (encode cs) = some d := by
  rw [Doc.loads_encode, h.read]

/-- The buffer after a list of points is the bytes of their array, up to its end. -/
theorem writePoints_encode {sep : ℕ → Bool} {pt : ℕ → Point} {n : ℕ} {cs : ℕ → List Char}
    (hfirst : sep 0 = false) (hrest : ∀ i < n, 0 < i → sep i = true)
    (hvec : ∀ i < n, (pt i).vec = encode (cs i)) (start : List Char) :
    writePoints sep pt n (encode start) =
      encode (start ++ commas ((List.range n).map fun i => pointText (pt i).id (cs i))) := by
  rw [writePoints_eq pt hfirst hrest, encode_points hvec, Json.encode_append]

theorem loads_runBody_batch {batch : ℤ} {pt : ℕ → Point} {items : ℕ → List Doc} (hbatch : 1 < batch)
    (h : ∀ i < batch.toNat, Doc.loads (pt i).vec = some (.arr (items i))) (buf : Bytes) :
    Doc.loads (runBody batch pt buf) = some (runDoc batch (fun i => (pt i).id) items) := by
  obtain ⟨cs, hcs⟩ := exists_texts h
  have hn : 0 < batch.toNat := by omega
  let points := pointsMember (fun i => (pt i).id) hn fun i hi => (hcs i hi).2
  have hreads := Reads.obj [upsertMember, points] (by simp)
  have hopen : "\x7b\"upsert\":true,\"points\":[".toList =
      '{' :: (upsertMember.line ++ ',' :: (keyText "points".toList ++ ['['])) := by decide
  have hclose : "]\x7d".toList = [']', '}'] := by decide
  rw [runBody_batch hbatch, runDoc, if_pos hbatch, text,
    writePoints_encode (by decide) (fun i _ hi => by simpa using hi) fun i hi => (hcs i hi).1, text,
    ← Json.encode_append, hopen, hclose]
  have htext : '{' :: (upsertMember.line ++ ',' :: (keyText "points".toList ++ ['['])) ++
      commas ((List.range batch.toNat).map fun i => pointText (pt i).id (cs i)) ++ [']', '}'] =
      '{' :: (commas ([upsertMember, points].map Json.Member.line) ++ ['}']) := by
    rw [List.map_cons, List.map_cons, List.map_nil, Json.commas_cons_cons, Json.commas_singleton,
      pointsMember_line]
    simp only [List.append_assoc, List.cons_append, List.nil_append]
  rw [htext]
  exact loads_encode_of_reads hreads

theorem loads_runBody_single {batch : ℤ} {pt : ℕ → Point} {items : ℕ → List Doc}
    (hbatch : ¬ 1 < batch) (h : Doc.loads (pt 0).vec = some (.arr (items 0))) (buf : Bytes) :
    Doc.loads (runBody batch pt buf) = some (runDoc batch (fun i => (pt i).id) items) := by
  obtain ⟨cs, hvec, hread⟩ := Doc.exists_text h
  let vector := vectorMember (Reads.of_read hread)
  have hreads := Reads.obj [upsertMember, idMember (pt 0).id, vector] (by simp)
  have hopen : "\x7b\"upsert\":true,".toList = '{' :: (upsertMember.line ++ [',']) := by decide
  have hid : "\"id\":".toList = keyText "id".toList := by decide
  have hvector : ",\"vector\":".toList = ',' :: keyText "vector".toList := by decide
  have hclose : "\x7d".toList = ['}'] := by decide
  rw [runBody_single hbatch, runDoc, if_neg hbatch, hvec, text, text, formatUint, text, text,
    ← Json.encode_append, ← Json.encode_append, ← Json.encode_append, ← Json.encode_append,
    ← Json.encode_append, hopen, hid, hvector, hclose]
  have htext : '{' :: (upsertMember.line ++ [',']) ++ keyText "id".toList ++ natText (pt 0).id ++
      ',' :: keyText "vector".toList ++ cs ++ ['}'] =
      '{' :: (commas ([upsertMember, idMember (pt 0).id, vector].map Json.Member.line) ++
        ['}']) := by
    rw [List.map_cons, List.map_cons, List.map_cons, List.map_nil, Json.commas_cons_cons,
      Json.commas_cons_cons, Json.commas_singleton]
    simp only [vector, idMember, vectorMember, Json.Member.line, List.append_assoc,
      List.cons_append, List.nil_append]
  rw [htext]
  exact loads_encode_of_reads hreads

theorem loads_runBody {batch : ℤ} {pt : ℕ → Point} {items : ℕ → List Doc} (hbatch : 1 ≤ batch)
    (h : ∀ i < batch.toNat, Doc.loads (pt i).vec = some (.arr (items i))) (buf : Bytes) :
    Doc.loads (runBody batch pt buf) = some (runDoc batch (fun i => (pt i).id) items) := by
  by_cases hmany : 1 < batch
  · exact loads_runBody_batch hmany h buf
  · exact loads_runBody_single hmany (h 0 (by omega)) buf

/-- No id of a job wraps around. -/
theorem Job.toInt_id {j : Job} {i : ℕ} (hi : i < j.count) : (j.id i).toInt = j.lo.toInt + i := by
  have hlo := j.lo.le_toInt
  have hhi := j.hi.toInt_lt
  have hcount : j.lo.toInt + i < j.hi.toInt := by
    rw [Job.count] at hi
    omega
  have hsize : Int64.size = 2 ^ 64 := rfl
  rw [Job.id, Int64.toInt_add, Int64.toInt_ofNat', Int.add_bmod_bmod, hsize]
  apply Int.bmod_eq_of_le
  · omega
  · omega

theorem loads_stageBody {j : Job} {vec : ℕ → Bytes} {items : ℕ → List Doc} (hj : j.lo < j.hi)
    (h : ∀ i < j.count, Doc.loads (vec i) = some (.arr (items i))) (buf : Bytes) :
    Doc.loads (stageBody j vec buf) = some (stageDoc j items) := by
  obtain ⟨cs, hcs⟩ := exists_texts h
  have hn : 0 < j.count := by
    have hlt := Int64.lt_iff_toInt_lt.mp hj
    rw [Job.count]
    omega
  have hfirst : decide (j.lo < j.id 0) = false := by
    simp [Job.id]
  have hrest : ∀ i < j.count, 0 < i → decide (j.lo < j.id i) = true := by
    intro i hi hpos
    rw [decide_eq_true_eq, Int64.lt_iff_toInt_lt, Job.toInt_id hi]
    omega
  let points := pointsMember j.pointId hn fun i hi => (hcs i hi).2
  have hreads := Reads.obj [points] (by simp)
  have hopen : "\x7b\"points\":[".toList = '{' :: (keyText "points".toList ++ ['[']) := by decide
  have hclose : "]\x7d".toList = [']', '}'] := by decide
  rw [stageBody_eq, text, writePoints_encode hfirst hrest fun i hi => (hcs i hi).1, text,
    ← Json.encode_append, hopen, hclose]
  have htext : '{' :: (keyText "points".toList ++ ['[']) ++
      commas ((List.range j.count).map fun i => pointText (j.pointId i) (cs i)) ++ [']', '}'] =
      '{' :: (commas ([points].map Json.Member.line) ++ ['}']) := by
    rw [List.map_cons, List.map_nil, Json.commas_singleton, pointsMember_line]
    simp only [List.append_assoc, List.cons_append, List.nil_append]
  rw [htext]
  exact loads_encode_of_reads hreads

/-- Whatever the buffer held before, a body is the text of one object, and that holds
the points in order, each with its id and its vector. -/
theorem bodies_parse (buf : Bytes) :
    (∀ (batch : ℤ) (pt : ℕ → Point) (items : ℕ → List Doc), 1 ≤ batch →
      (∀ i < batch.toNat, Doc.loads (pt i).vec = some (.arr (items i))) →
      Doc.loads (runBody batch pt buf) = some (runDoc batch (fun i => (pt i).id) items)) ∧
    ∀ (j : Job) (vec : ℕ → Bytes) (items : ℕ → List Doc), j.lo < j.hi →
      (∀ i < j.count, Doc.loads (vec i) = some (.arr (items i))) →
      Doc.loads (stageBody j vec buf) = some (stageDoc j items) := by
  refine ⟨?_, ?_⟩
  · intro batch pt items hbatch h
    exact loads_runBody hbatch h buf
  · intro j vec items hj h
    exact loads_stageBody hj h buf

theorem bodies_parse_two_points :
    Doc.loads (encode ['[', '0', '.', '5', ']']) = some (.arr [.num ['0', '.', '5']]) ∧
    Doc.loads (runBody 2 (fun i => ⟨i, encode ['[', '0', '.', '5', ']']⟩) (text "stale")) =
      some (runDoc 2 (fun i => i) fun _ => [.num ['0', '.', '5']]) ∧
    Doc.loads (stageBody ⟨7, 9⟩ (fun _ => encode ['[', '0', '.', '5', ']']) (text "stale")) =
      some (stageDoc ⟨7, 9⟩ fun _ => [.num ['0', '.', '5']]) := by
  have hvec : Doc.loads (encode ['[', '0', '.', '5', ']']) = some (.arr [.num ['0', '.', '5']]) := by
    rw [Doc.loads_encode]
    rfl
  exact ⟨hvec,
    (bodies_parse (text "stale")).1 2 (fun i => ⟨i, encode ['[', '0', '.', '5', ']']⟩)
      (fun _ => [.num ['0', '.', '5']]) (by decide) fun _ _ => hvec,
    (bodies_parse (text "stale")).2 ⟨7, 9⟩ (fun _ => encode ['[', '0', '.', '5', ']'])
      (fun _ => [.num ['0', '.', '5']]) (by decide) fun _ _ => hvec⟩

/-! ### The bodies of a run -/

variable {σ : Type*} {R : Netkv.Rand σ} {points batch : ℤ} {vecs : List Bytes}

theorem mem_of_drawPoint {rng rng' : σ} {id : ℕ} {vec : Bytes}
    (h : drawPoint R points vecs rng = some (id, vec, rng')) : vec ∈ vecs := by
  rw [drawPoint] at h
  split at h
  · cases h
  · obtain ⟨v, hv, heq⟩ := Option.map_eq_some_iff.mp h
    obtain ⟨-, rfl, -⟩ : _ ∧ v = vec ∧ _ := by simpa using heq
    exact List.mem_of_getElem? hv

theorem exists_points_of_drawBatch {n : ℕ} {rng rng' : σ} {texts : List Bytes}
    (h : drawBatch R points vecs n rng = some (texts, rng')) :
    ∃ pt : ℕ → Point, texts = (List.range n).map (fun i => writePoint (pt i).id (pt i).vec) ∧
      ∀ i < n, (pt i).vec ∈ vecs := by
  induction n generalizing rng rng' texts with
  | zero =>
      obtain ⟨rfl, -⟩ : [] = texts ∧ rng = rng' := by simpa [drawBatch] using h
      exact ⟨fun _ => ⟨0, []⟩, rfl, fun i hi => absurd hi (Nat.not_lt_zero i)⟩
  | succ n ih =>
      rw [drawBatch] at h
      obtain ⟨⟨id, vec, rng₁⟩, hpoint, h⟩ := Option.bind_eq_some_iff.mp h
      obtain ⟨⟨rest, rng₂⟩, hrest, h⟩ := Option.bind_eq_some_iff.mp h
      obtain ⟨rfl, -⟩ : writePoint id vec :: rest = texts ∧ rng₂ = rng' := by simpa using h
      obtain ⟨pt, rfl, hpt⟩ := ih hrest
      refine ⟨Nat.rec ⟨id, vec⟩ fun i _ => pt i, ?_, ?_⟩
      · rw [List.range_succ_eq_map, List.map_cons, List.map_map]
        rfl
      · intro i hi
        cases i with
        | zero => exact mem_of_drawPoint hpoint
        | succ i => exact hpt i (Nat.lt_of_succ_lt_succ hi)

/-- The body `run` draws is the one it puts together in the buffer. -/
theorem exists_points_of_drawBody {rng rng' : σ} {body : Bytes}
    (h : drawBody R points batch vecs rng = some (body, rng')) (buf : Bytes) :
    ∃ pt : ℕ → Point, body = runBody batch pt buf ∧ ∀ i < batch.toNat, (pt i).vec ∈ vecs := by
  rw [drawBody] at h
  split at h
  · rename_i hmany
    obtain ⟨⟨texts, rng₁⟩, hdraw, h⟩ := Option.bind_eq_some_iff.mp h
    obtain ⟨pt, rfl, hpt⟩ := exists_points_of_drawBatch hdraw
    refine ⟨pt, ?_, hpt⟩
    rw [runBody_batch hmany, writePoints_eq pt (by decide) fun i _ hi => by simpa using hi]
    exact (congrArg Prod.fst (Option.some.inj h)).symm
  · rename_i hone
    obtain ⟨⟨id, vec, rng₁⟩, hpoint, h⟩ := Option.bind_eq_some_iff.mp h
    refine ⟨fun _ => ⟨id, vec⟩, ?_, fun _ _ => mem_of_drawPoint hpoint⟩
    have hopen : text "\x7b\"upsert\":true,\"id\":" =
        text "\x7b\"upsert\":true," ++ text "\"id\":" := by decide
    rw [runBody_single hone, ← hopen]
    exact (congrArg Prod.fst (Option.some.inj h)).symm

theorem mem_bodies_loop {win : Netkv.Window} {readings : List Reading} {rng : σ} {w : Worker}
    {body : Bytes} (h : body ∈ (loop R points batch vecs win readings rng w).bodies) :
    body ∈ w.bodies ∨ ∃ rng rng', drawBody R points batch vecs rng = some (body, rng') := by
  induction readings generalizing rng w with
  | nil => exact Or.inl h
  | cons r rs ih =>
      rw [loop] at h
      split at h
      · exact Or.inl h
      · cases hdraw : drawBody R points batch vecs rng with
        | none =>
            simp only [hdraw] at h
            exact Or.inl h
        | some p =>
            obtain ⟨body', rng'⟩ := p
            simp only [hdraw] at h
            have hbodies (w : Worker) :
                (if win.warmDeadline < r.now then w.measure batch r else w).bodies = w.bodies := by
              unfold Worker.measure
              split
              · split <;> rfl
              · rfl
            rcases ih h with hmem | hmem
            · rw [hbodies] at hmem
              rcases List.mem_append.mp hmem with hmem | hmem
              · exact Or.inl hmem
              · obtain rfl := List.mem_singleton.mp hmem
                exact Or.inr ⟨rng, rng', hdraw⟩
            · exact Or.inr hmem

/-- Every body a worker posts is the text of one object with its points. -/
theorem worker_bodies_parse (hbatch : 1 ≤ batch)
    (hvecs : ∀ vec ∈ vecs, ∃ items, Doc.loads vec = some (.arr items)) {win : Netkv.Window} {w : ℕ}
    {readings : List Reading} {body : Bytes}
    (h : body ∈ (worker R points batch vecs win w readings).bodies) :
    ∃ (pt : ℕ → Point) (items : ℕ → List Doc),
      (∀ i < batch.toNat, (pt i).vec ∈ vecs ∧ Doc.loads (pt i).vec = some (.arr (items i))) ∧
      Doc.loads body = some (runDoc batch (fun i => (pt i).id) items) := by
  rcases mem_bodies_loop h with hmem | ⟨rng, rng', hdraw⟩
  · cases hmem
  · obtain ⟨pt, rfl, hpt⟩ := exists_points_of_drawBody hdraw []
    have hitems : ∀ i, ∃ items, i < batch.toNat → Doc.loads (pt i).vec = some (.arr items) := by
      intro i
      by_cases hi : i < batch.toNat
      · obtain ⟨items, hitems⟩ := hvecs _ (hpt i hi)
        exact ⟨items, fun _ => hitems⟩
      · exact ⟨[], fun hlt => absurd hlt hi⟩
    choose items hitems using hitems
    exact ⟨pt, items, fun i hi => ⟨hpt i hi, hitems i hi⟩, loads_runBody hbatch hitems []⟩

end RostamBench.Netvec
