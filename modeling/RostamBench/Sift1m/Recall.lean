import RostamBench.Lib.Ranks
import RostamBench.Sift1m.Reshape
import RostamBench.Sift1m.Search
import Mathlib.Algebra.BigOperators.Group.Finset.Basic
import Mathlib.Algebra.Order.BigOperators.Group.List
import Mathlib.Algebra.Order.Field.Rat
import Mathlib.Data.Finset.Card
import Mathlib.Tactic.Positivity

/-!
The recall the SIFT clients report.

Six programs ask an index for the neighbours of the same queries and count how many of
the true ones are among the answers. Each sees the answers in a form of its own: ids in
the response of the binary protocol or of gRPC, which the Rostam servers give out from
one on; point ids and labels, which Qdrant and hnswlib have from zero on; and keys of
Redis hashes, with the number behind a prefix. The ground truth counts from zero.

`recallAt` is what they are all after, in terms of rows of the base file. Every client
reports exactly that (`clients_report_recall`), so the recalls of two engines differ only
where their answers do.
-/

namespace RostamBench.Sift1m

open BigEndian

/-- `K`. -/
def topK : ℕ := 10

/-- `len(a & b)` of two sets. -/
def common (a b : List ℤ) : ℕ := (a.toFinset ∩ b.toFinset).card

/-- `hits / (n * K)`; there is a query, or reading the queries had failed. -/
def recallOf (hits n : ℕ) : ℚ := hits / (n * topK : ℕ)

/-! ### Clients that count -/

/-- The loop `hits += len(ids & truth)` over the queries. -/
def hitsOver (queries : List (List ℤ × List ℤ)) : ℕ :=
  queries.foldl (fun hits q => hits + common q.1 q.2) 0

/-- `hnswlib_bench.py`, for the labels `knn_query` returns. -/
def hnswlibRecall (labels gt : List (List ℤ)) : ℚ :=
  recallOf (hitsOver (labels.zip gt)) labels.length

/-- `qdrant_bench.py`, for the ids of the points `query_points` returns. -/
def qdrantRecall (ids gt : List (List ℤ)) : ℚ := recallOf (hitsOver (ids.zip gt)) ids.length

/-- A field of the reply of `FT.SEARCH`. -/
inductive Resp
  | int (n : ℤ)
  | text (cs : List Char)
  | array (fields : List (List Char))
  deriving DecidableEq, Repr

/-- `int(s)` of a text of digits; any other text counts as its `ValueError`. -/
def pyInt (cs : List Char) : Option ℤ :=
  if cs ≠ [] ∧ cs.all Char.isDigit then some (Nat.ofDigitChars 10 cs 0) else none

/-- `int(key.split(":")[1])`. -/
def redisId : Resp → Option ℤ
  | .text key => ((key.splitOn ':')[1]?).bind pyInt
  | .int _ | .array _ => none

/-- `for j in range(1, len(res), 2)`: the keys of a reply `[count, key0, fields0, ..]`. -/
def redisIds : List Resp → Option (List ℤ)
  | [] | [_] => some []
  | _ :: key :: rest => do
      let id ← redisId key
      let ids ← redisIds rest
      some (id :: ids)

/-- `redis_bench.py`, for the replies of its queries. -/
def redisRecall (replies : List (List Resp)) (gt : List (List ℤ)) : Option ℚ :=
  (replies.mapM redisIds).map fun ids => recallOf (hitsOver (ids.zip gt)) replies.length

/-! ### Clients that time as well -/

/-- What one round of a `latency` loop has beside the answer: the row of the ground truth,
and the clock before and after the search. -/
structure Round where
  row : List ℤ
  t0 : ℚ
  t1 : ℚ

/-- In microseconds. -/
def Round.lat (r : Round) : ℚ := (r.t1 - r.t0) * 10 ^ 6

structure Report where
  recallAt : ℚ
  p50 : ℚ
  p99 : ℚ
  mean : ℚ

/-- The end of `latency`; `none` is an `IndexError`. At the lengths a run has, the rounding
of `len(lats) * 0.99` does not reach the next integer. -/
def report (latN hits : ℕ) (lats : List ℚ) : Option Report := do
  let sorted := lats.mergeSort
  let p50 ← sorted[lats.length / 2]?
  let p99 ← sorted[lats.length * 99 / 100]?
  some { recallAt := recallOf hits latN, p50 := p50, p99 := p99, mean := lats.sum / lats.length }

/-- The loop of a `latency` whose searches cannot fail, with the truth it makes of a row. -/
def timedLoop (truth : List ℤ → List ℤ) (queries : List (List ℤ × Round)) : List ℚ × ℕ :=
  queries.foldl (fun (lats, hits) q => (lats ++ [q.2.lat], hits + common q.1 (truth q.2.row)))
    ([], 0)

/-- `latency` of `qdrant_latency_qps.py`, for the ids of the points of each query. -/
def qdrantLatency (latN : ℕ) (queries : List (List ℤ × Round)) : Option Report :=
  let (lats, hits) := timedLoop id queries
  report latN hits lats

/-- What `coll.Search` of the gRPC server returns. -/
structure Result where
  id : UInt64
  distBits : UInt32

/-- `Search` of the gRPC server. -/
def grpcSearch (res : List Result) : List PyClient.Hit :=
  res.map fun r => { id := r.id, distBits := r.distBits }

/-- `latency` of `rostam_grpc_client.py`, for what the server has found. -/
def grpcLatency (latN : ℕ) (queries : List (List Result × Round)) : Option Report :=
  let (lats, hits) := timedLoop PyClient.truth
    (queries.map fun q => ((grpcSearch q.1).map fun hit => (hit.id.toNat : ℤ), q.2))
  report latN hits lats

namespace PyClient

/-- The loop of `latency`, over one connection. -/
def latencyLoop (sock : Sock) : List (Bytes × Round) → List ℚ → ℕ →
    Except SearchErr (List ℚ × ℕ)
  | [], lats, hits => .ok (lats, hits)
  | (frame, r) :: rest, lats, hits => do
      let (ids, sock) ← search sock frame
      latencyLoop sock rest (lats ++ [r.lat])
        (hits + common (ids.map fun id : ℕ => (id : ℤ)) (truth r.row))

inductive LatencyErr
  | encode (err : Vectordbbench.EncodeErr)
  | search (err : SearchErr)
  | indexError

/-- `latency` of `rostam_py_client.py`, on the queries it uses. -/
def latency (latN : ℕ) (queries : List (List UInt32 × Round)) (sock : Sock) :
    Except LatencyErr Report :=
  match queries.mapM fun q => encodeSearch q.1 topK with
  | .error err => .error (.encode err)
  | .ok frames =>
      match latencyLoop sock (frames.zip (queries.map Prod.snd)) [] 0 with
      | .error err => .error (.search err)
      | .ok (lats, hits) =>
          match report latN hits lats with
          | none => .error .indexError
          | some rep => .ok rep

end PyClient

/-! ### What they are after -/

/-- The rows of an answer as the ground truth writes them. -/
def rowInts (rows : List ℕ) : List ℤ := rows.map fun row : ℕ => (row : ℤ)

/-- The true neighbours of all queries that were found. -/
def found (answers : List (List ℕ)) (gt : List (List ℤ)) : ℕ :=
  ((answers.zip gt).map fun q => common (rowInts q.1) q.2).sum

/-- The part of the true neighbours that was found. -/
def recallAt (answers : List (List ℕ)) (gt : List (List ℤ)) : ℚ :=
  recallOf (found answers gt) answers.length

/-! ### How the answers get to the clients -/

/-- The id `BuildConcurrent` is given for a row. -/
def serverId (row : ℕ) : UInt64 := UInt64.ofNat (row + 1)

/-- `f"{PREFIX}{i}"`. -/
def redisKey (row : ℕ) : List Char := "v:".toList ++ Json.natText row

/-- A reply of `FT.SEARCH` with the keys of `rows`. -/
def redisReply (count : Resp) (fields : ℕ → Resp) (rows : List ℕ) : List Resp :=
  count :: rows.flatMap fun row => [.text (redisKey row), fields row]

theorem redisId_redisKey (row : ℕ) : redisId (.text (redisKey row)) = some row := by
  have hdigits : ∀ c ∈ Json.natText row, c.isDigit = true := fun c hc =>
    Nat.isDigit_of_mem_toDigits (by decide) (by decide) hc
  have hcolon : ':' ∉ Json.natText row := fun hc => absurd (hdigits _ hc) (by decide)
  have hsplit : (redisKey row).splitOn ':' = [['v'], Json.natText row] := by
    change (['v'] ++ ':' :: Json.natText row).splitOn ':' = _
    rw [List.splitOn_append_cons_self, List.splitOn_eq_singleton hcolon,
      List.splitOn_eq_singleton (by decide)]
    rfl
  have hint : pyInt (Json.natText row) = some (row : ℤ) := by
    rw [pyInt, if_pos ⟨Nat.toDigits_ne_nil, List.all_eq_true.mpr hdigits⟩, Json.natText,
      Nat.ofDigitChars_ten_toDigits]
  rw [redisId, hsplit]
  exact hint

theorem redisIds_redisReply (count : Resp) (fields : ℕ → Resp) (rows : List ℕ) :
    redisIds (redisReply count fields rows) = some (rowInts rows) := by
  induction rows generalizing count with
  | nil => rfl
  | cons row rows ih =>
      rw [redisReply, List.flatMap_cons]
      change (redisId (.text (redisKey row))).bind
        (fun id => (redisIds (redisReply (fields row) fields rows)).bind fun ids =>
          some (id :: ids)) = _
      rw [redisId_redisKey, ih]
      rfl

theorem toNat_serverId {row : ℕ} (h : row < 2 ^ 63) : ((serverId row).toNat : ℤ) = row + 1 := by
  rw [serverId, PyClient.toNat_ofNat (by omega)]
  push_cast
  rfl

/-! ### Counting -/

/-- Both counts from one on, or both from zero. -/
theorem common_truth (a b : List ℤ) : common (a.map (· + 1)) (PyClient.truth b) = common a b := by
  have himage (c : List ℤ) : (c.map (· + 1)).toFinset = c.toFinset.image (· + 1) := by
    ext x
    simp only [List.mem_toFinset, List.mem_map, Finset.mem_image]
  have hinj : Function.Injective fun x : ℤ => x + 1 := add_left_injective 1
  rw [common, PyClient.truth, himage, himage, ← Finset.image_inter _ _ hinj,
    Finset.card_image_of_injective _ hinj, common]

theorem common_le (a b : List ℤ) : common a b ≤ b.length :=
  (Finset.card_le_card Finset.inter_subset_right).trans (List.toFinset_card_le b)

theorem common_eq_length {a b : List ℤ} (hb : b.Nodup) :
    common a b = b.length ↔ ∀ x ∈ b, x ∈ a := by
  rw [← List.toFinset_card_of_nodup hb, common]
  constructor
  · intro h x hx
    have hsub := Finset.eq_of_subset_of_card_le Finset.inter_subset_right h.ge
    have hmem : x ∈ a.toFinset ∩ b.toFinset := by rw [hsub]; exact List.mem_toFinset.mpr hx
    exact List.mem_toFinset.mp (Finset.mem_inter.mp hmem).1
  · intro h
    rw [Finset.inter_eq_right.mpr]
    intro x hx
    exact List.mem_toFinset.mpr (h x (List.mem_toFinset.mp hx))

theorem hitsOver_eq (queries : List (List ℤ × List ℤ)) :
    hitsOver queries = (queries.map fun q => common q.1 q.2).sum := by
  have hgen : ∀ hits, queries.foldl (fun hits q => hits + common q.1 q.2) hits =
      hits + (queries.map fun q => common q.1 q.2).sum := by
    induction queries with
    | nil => simp
    | cons q queries ih =>
        intro hits
        rw [List.foldl_cons, ih, List.map_cons, List.sum_cons, Nat.add_assoc]
  rw [hitsOver, hgen, Nat.zero_add]

theorem hitsOver_rowInts (answers : List (List ℕ)) (gt : List (List ℤ)) :
    hitsOver ((answers.map rowInts).zip gt) = found answers gt := by
  rw [hitsOver_eq, found, List.zip_map_left, List.map_map]
  rfl

theorem timedLoop_eq (truth : List ℤ → List ℤ) (queries : List (List ℤ × Round)) :
    timedLoop truth queries = (queries.map fun q => q.2.lat,
      (queries.map fun q => common q.1 (truth q.2.row)).sum) := by
  have hgen : ∀ lats hits, queries.foldl
      (fun (lats, hits) q => (lats ++ [q.2.lat], hits + common q.1 (truth q.2.row)))
        (lats, hits) = (lats ++ queries.map fun q => q.2.lat,
          hits + (queries.map fun q => common q.1 (truth q.2.row)).sum) := by
    induction queries with
    | nil => simp
    | cons q queries ih =>
        intro lats hits
        rw [List.foldl_cons, ih]
        simp [Nat.add_assoc]
  rw [timedLoop, hgen, List.nil_append, Nat.zero_add]

/-! ### Reports -/

open Ranks

/-- What a `latency` reports of its rounds. -/
structure Reports (answers : List (List ℕ)) (rounds : List Round) (rep : Report) : Prop where
  recall_eq : rep.recallAt = recallAt answers (rounds.map Round.row)
  p50 : IsQuantile (rounds.map Round.lat) ((rounds.length : ℚ) / 2) rep.p50
  p99 : IsQuantile (rounds.map Round.lat) ((rounds.length : ℚ) * 99 / 100) rep.p99
  mean : rep.mean = (rounds.map Round.lat).sum / rounds.length

/-- An entry of the sorted list is a quantile of the list it was made from. -/
theorem isQuantile_mergeSort (lats : List ℚ) {i : ℕ} (hi : i < lats.length) {x : ℚ}
    (hlo : (i : ℚ) ≤ x) (hhi : x ≤ i + 1) :
    ∃ v, lats.mergeSort[i]? = some v ∧ IsQuantile lats x v := by
  have hperm : lats.mergeSort.Perm lats := List.mergeSort_perm lats _
  have hsorted : lats.mergeSort.Pairwise (· ≤ ·) := List.pairwise_mergeSort' (· ≤ ·) lats
  have hlen : i < lats.mergeSort.length := by rwa [hperm.length_eq]
  refine ⟨lats.mergeSort[i], List.getElem?_eq_getElem hlen, ?_⟩
  obtain ⟨hmem, hbelow, hupTo⟩ := isQuantile_getElem hsorted hlen hlo hhi
  refine ⟨hperm.mem_iff.mp hmem, ?_, ?_⟩
  · rwa [hperm.countP_eq] at hbelow
  · rwa [hperm.countP_eq] at hupTo

theorem report_spec {answers : List (List ℕ)} {rounds : List Round} (hne : rounds ≠ [])
    (hlen : rounds.length = answers.length) :
    ∃ rep, report rounds.length (found answers (rounds.map Round.row))
        (rounds.map Round.lat) = some rep ∧ Reports answers rounds rep := by
  have hpos : 0 < rounds.length := List.length_pos_of_ne_nil hne
  have hbounds (a b : ℕ) (hb : 0 < b) : ((a / b : ℕ) : ℚ) ≤ (a : ℚ) / b ∧
      (a : ℚ) / b ≤ (a / b : ℕ) + 1 := by
    have hb' : (0 : ℚ) < b := by exact_mod_cast hb
    refine ⟨(le_div_iff₀ hb').mpr ?_, (div_le_iff₀ hb').mpr ?_⟩
    · exact_mod_cast Nat.div_mul_le_self a b
    · exact_mod_cast (Nat.lt_div_mul_add hb).le.trans (by rw [Nat.add_mul]; omega)
  obtain ⟨hlo, hhi⟩ := hbounds rounds.length 2 (by decide)
  obtain ⟨hlo', hhi'⟩ := hbounds (rounds.length * 99) 100 (by decide)
  obtain ⟨p50, hp50, hq50⟩ := isQuantile_mergeSort (rounds.map Round.lat)
    (i := rounds.length / 2) (by rw [List.length_map]; omega) hlo hhi
  obtain ⟨p99, hp99, hq99⟩ := isQuantile_mergeSort (rounds.map Round.lat)
    (i := rounds.length * 99 / 100) (by rw [List.length_map]; omega) hlo' hhi'
  push_cast at hq50 hq99
  refine ⟨{ recallAt := recallOf (found answers (rounds.map Round.row)) rounds.length, p50 := p50,
            p99 := p99, mean := (rounds.map Round.lat).sum / rounds.length }, ?_, ?_⟩
  · simp [report, hp50, hp99]
  · exact ⟨by rw [recallAt, hlen], hq50, hq99, rfl⟩

/-! ### The bounds of a recall -/

/-- No query can have more than its true neighbours found, and all of them are found if
the count is full. -/
theorem sum_common (queries : List (List ℤ × List ℤ))
    (h : ∀ q ∈ queries, q.2.length = topK ∧ q.2.Nodup) :
    (queries.map fun q => common q.1 q.2).sum ≤ queries.length * topK ∧
      ((queries.map fun q => common q.1 q.2).sum = queries.length * topK ↔
        ∀ q ∈ queries, ∀ x ∈ q.2, x ∈ q.1) := by
  induction queries with
  | nil => simp
  | cons q queries ih =>
      obtain ⟨⟨hlen, hnodup⟩, hqueries⟩ := List.forall_mem_cons.mp h
      obtain ⟨hle, hiff⟩ := ih hqueries
      have hq : common q.1 q.2 ≤ topK := hlen ▸ common_le q.1 q.2
      have hfull : common q.1 q.2 = topK ↔ ∀ x ∈ q.2, x ∈ q.1 := by
        rw [← common_eq_length hnodup, hlen]
      rw [List.map_cons, List.sum_cons, List.length_cons, Nat.succ_mul]
      refine ⟨by omega, ?_⟩
      rw [List.forall_mem_cons, ← hfull, ← hiff]
      omega

theorem recall_bounds {answers : List (List ℕ)} {gt : List (List ℤ)} (hne : answers ≠ [])
    (hlen : gt.length = answers.length) (hgt : ∀ row ∈ gt, row.length = topK ∧ row.Nodup) :
    0 ≤ recallAt answers gt ∧ recallAt answers gt ≤ 1 ∧
      (recallAt answers gt = 1 ↔
        ∀ q ∈ (answers.map rowInts).zip gt, ∀ x ∈ q.2, x ∈ q.1) := by
  have hpos : 0 < answers.length := List.length_pos_of_ne_nil hne
  have htotal : 0 < answers.length * topK := Nat.mul_pos hpos (by decide)
  have htotal' : (0 : ℚ) < (answers.length * topK : ℕ) := by exact_mod_cast htotal
  have hzip : ((answers.map rowInts).zip gt).length = answers.length := by
    rw [List.length_zip, List.length_map, hlen, Nat.min_self]
  obtain ⟨hle, hiff⟩ := sum_common ((answers.map rowInts).zip gt)
    fun q hq => hgt q.2 (List.of_mem_zip hq).2
  rw [← hitsOver_eq, hitsOver_rowInts, hzip] at hle hiff
  refine ⟨div_nonneg (Nat.cast_nonneg _) (Nat.cast_nonneg _), ?_, ?_⟩
  · exact (div_le_one htotal').mpr (by exact_mod_cast hle)
  · rw [recallAt, recallOf, div_eq_one_iff_eq htotal'.ne', ← hiff]
    exact Nat.cast_inj

/-! ### The loops -/

/-- The ids of a Rostam server are one above the rows. -/
theorem ids_eq {ids : List UInt64} {rows : List ℕ} (hrows : ∀ row ∈ rows, row < 2 ^ 63)
    (h : ids = rows.map serverId) :
    ids.map (fun id => (id.toNat : ℤ)) = (rowInts rows).map (· + 1) := by
  rw [h, List.map_map, rowInts, List.map_map]
  exact List.map_congr_left fun row hrow => toNat_serverId (hrows row hrow)

/-- What a client sees of Rostam's answers: the numbers of the rows, from one on. -/
def oneBased (answers : List (List ℕ)) : List (List ℤ) :=
  answers.map fun rows => (rowInts rows).map (· + 1)

theorem sum_common_oneBased (answers : List (List ℕ)) (rounds : List Round) :
    (((oneBased answers).zip rounds).map fun q => common q.1 (PyClient.truth q.2.row)).sum =
      found answers (rounds.map Round.row) := by
  rw [oneBased, List.zip_map_left, List.map_map, found, List.zip_map_right, List.map_map]
  congr 1
  exact List.map_congr_left fun q _ => common_truth _ _

theorem map_lat_zip {α : Type*} {xs : List α} {rounds : List Round}
    (hlen : rounds.length = xs.length) :
    (xs.zip rounds).map (fun q => q.2.lat) = rounds.map Round.lat := by
  have hsnd : (xs.zip rounds).map Prod.snd = rounds := List.map_snd_zip hlen.le
  calc
    (xs.zip rounds).map (fun q => q.2.lat) = ((xs.zip rounds).map Prod.snd).map Round.lat := by
      rw [List.map_map]
      rfl
    _ = rounds.map Round.lat := by rw [hsnd]

namespace PyClient

variable {responses : List (List Hit)} {frames : List Bytes} {rounds : List Round} {sock : Sock}

/-- The loop takes one response off the stream in every round. -/
theorem latencyLoop_eq {rest : Bytes} (hframes : frames.length = responses.length)
    (hrounds : rounds.length = responses.length)
    (h : ∀ hits ∈ responses, 9 + 12 * hits.length < 2 ^ 32)
    (hsock : sock.bytes = responses.flatMap response ++ rest) (lats : List ℚ) (hits : ℕ) :
    latencyLoop sock (frames.zip rounds) lats hits =
      .ok (lats ++ rounds.map Round.lat, hits +
        (((responses.map fun hs => hs.map fun hit => (hit.id.toNat : ℤ)).zip rounds).map
          fun q => common q.1 (truth q.2.row)).sum) := by
  induction responses generalizing frames rounds sock lats hits with
  | nil =>
      obtain rfl := List.eq_nil_of_length_eq_zero hframes
      obtain rfl := List.eq_nil_of_length_eq_zero hrounds
      simp [latencyLoop]
  | cons hs responses ih =>
      obtain ⟨frame, frames, rfl⟩ := List.exists_cons_of_length_eq_add_one hframes
      obtain ⟨r, rounds, rfl⟩ := List.exists_cons_of_length_eq_add_one hrounds
      obtain ⟨hhits, hresponses⟩ := List.forall_mem_cons.mp h
      rw [List.flatMap_cons, List.append_assoc] at hsock
      obtain ⟨sock', hsearch, hbytes, -⟩ := search_eq frame hhits hsock
      rw [List.zip_cons_cons, latencyLoop]
      refine bind_of_eq_ok hsearch ?_
      refine (ih (by simpa using hframes) (by simpa using hrounds) hresponses hbytes _ _).trans ?_
      simp [Nat.add_assoc, Function.comp_def]

theorem encodeAll_ok (queries : List (List UInt32 × Round))
    (h : ∀ q ∈ queries, 32 + 4 * q.1.length < 2 ^ 32) :
    ∃ frames, queries.mapM (fun q => encodeSearch q.1 topK) = .ok frames ∧
      frames.length = queries.length := by
  induction queries with
  | nil => exact ⟨[], rfl, rfl⟩
  | cons q queries ih =>
      obtain ⟨hq, hqueries⟩ := List.forall_mem_cons.mp h
      obtain ⟨frames, hframes, hlen⟩ := ih hqueries
      have hframe := encodeSearch_eq (k := topK) (by decide) hq
      refine ⟨(bytesOf 4 (bodyOf q.1 topK).length ++ bodyOf q.1 topK) :: frames, ?_, ?_⟩
      · rw [List.mapM_cons]
        refine bind_of_eq_ok hframe ?_
        exact bind_of_eq_ok hframes rfl
      · rw [List.length_cons, List.length_cons, hlen]

/-- Over the wire, however the responses were split. -/
theorem latency_reports {answers : List (List ℕ)} (hne : rounds ≠ [])
    (hlen : rounds.length = answers.length)
    (hrows : ∀ rows ∈ answers, ∀ row ∈ rows, row < 2 ^ 63)
    (hids : responses.map (fun hs => hs.map Hit.id) = answers.map fun rows => rows.map serverId)
    (hsize : ∀ hs ∈ responses, 9 + 12 * hs.length < 2 ^ 32) {queries : List (List UInt32)}
    (hqueries : queries.length = answers.length)
    (hdim : ∀ q ∈ queries, 32 + 4 * q.length < 2 ^ 32)
    (hsock : sock.bytes = responses.flatMap response) :
    ∃ rep, latency rounds.length (queries.zip rounds) sock = .ok rep ∧
      Reports answers rounds rep := by
  have hresponses : responses.length = answers.length := by
    simpa using congrArg List.length hids
  have hzip : (queries.zip rounds).length = rounds.length := by
    rw [List.length_zip, hqueries, hlen, Nat.min_self]
  obtain ⟨frames, hframes, hframesLen⟩ := encodeAll_ok (queries.zip rounds)
    fun q hq => hdim q.1 (List.of_mem_zip hq).1
  have hsnd : (queries.zip rounds).map Prod.snd = rounds :=
    List.map_snd_zip (hlen.trans hqueries.symm).le
  have hseen : responses.map (fun hs => hs.map fun hit => (hit.id.toNat : ℤ)) =
      oneBased answers := by
    have hmap : responses.map (fun hs => hs.map fun hit => (hit.id.toNat : ℤ)) =
        (responses.map fun hs => hs.map Hit.id).map fun ids =>
          ids.map fun id => (id.toNat : ℤ) := by
      simp [Function.comp_def]
    rw [hmap, hids, List.map_map, oneBased]
    exact List.map_congr_left fun rows hrows' => ids_eq (hrows rows hrows') rfl
  have hrounds : rounds.length = responses.length := hlen.trans hresponses.symm
  have hstream : sock.bytes = responses.flatMap response ++ [] := by
    rw [List.append_nil]
    exact hsock
  have hloop := latencyLoop_eq (hframesLen.trans (hzip.trans hrounds)) hrounds hsize hstream [] 0
  rw [hseen, sum_common_oneBased, List.nil_append, Nat.zero_add] at hloop
  obtain ⟨rep, hrep, hreports⟩ := report_spec hne hlen
  refine ⟨rep, ?_, hreports⟩
  rw [latency, hframes, hsnd]
  simp only [hloop, hrep]

end PyClient

theorem qdrantLatency_reports {answers : List (List ℕ)} {rounds : List Round} (hne : rounds ≠ [])
    (hlen : rounds.length = answers.length) :
    ∃ rep, qdrantLatency rounds.length ((answers.map rowInts).zip rounds) = some rep ∧
      Reports answers rounds rep := by
  have hhits : (((answers.map rowInts).zip rounds).map fun q => common q.1 (id q.2.row)).sum =
      found answers (rounds.map Round.row) := by
    rw [found, List.zip_map_left, List.zip_map_right, List.map_map, List.map_map]
    rfl
  obtain ⟨rep, hrep, hreports⟩ := report_spec hne hlen
  refine ⟨rep, ?_, hreports⟩
  rw [qdrantLatency, timedLoop_eq, hhits, map_lat_zip (by rw [hlen, List.length_map])]
  exact hrep

theorem grpcLatency_reports {answers : List (List ℕ)} {rounds : List Round}
    {results : List (List Result)} (hne : rounds ≠ []) (hlen : rounds.length = answers.length)
    (hrows : ∀ rows ∈ answers, ∀ row ∈ rows, row < 2 ^ 63)
    (hids : results.map (fun rs => rs.map Result.id) = answers.map fun rows => rows.map serverId) :
    ∃ rep, grpcLatency rounds.length (results.zip rounds) = some rep ∧
      Reports answers rounds rep := by
  have hresults : results.length = answers.length := by
    simpa using congrArg List.length hids
  have hseen : results.map (fun rs => (grpcSearch rs).map fun hit => (hit.id.toNat : ℤ)) =
      oneBased answers := by
    have hmap : results.map (fun rs => (grpcSearch rs).map fun hit => (hit.id.toNat : ℤ)) =
        (results.map fun rs => rs.map Result.id).map fun ids => ids.map fun id => (id.toNat : ℤ) := by
      simp [grpcSearch, Function.comp_def]
    rw [hmap, hids, List.map_map, oneBased]
    exact List.map_congr_left fun rows hrows' => ids_eq (hrows rows hrows') rfl
  have hqueries : (results.zip rounds).map
      (fun q => ((grpcSearch q.1).map fun hit => (hit.id.toNat : ℤ), q.2)) =
        (oneBased answers).zip rounds := by
    rw [← hseen, List.zip_map_left]
    rfl
  obtain ⟨rep, hrep, hreports⟩ := report_spec hne hlen
  refine ⟨rep, ?_, hreports⟩
  rw [grpcLatency, hqueries, timedLoop_eq, sum_common_oneBased,
    map_lat_zip (by rw [hlen, oneBased, List.length_map])]
  exact hrep

theorem redisRecall_eq (count : List ℕ → Resp) (fields : ℕ → Resp) (answers : List (List ℕ))
    (gt : List (List ℤ)) :
    redisRecall (answers.map fun rows => redisReply (count rows) fields rows) gt =
      some (recallAt answers gt) := by
  have hids : (answers.map fun rows => redisReply (count rows) fields rows).mapM redisIds =
      some (answers.map rowInts) := by
    induction answers with
    | nil => rfl
    | cons rows answers ih =>
        rw [List.map_cons, List.mapM_cons, redisIds_redisReply, ih]
        rfl
  rw [redisRecall, hids, Option.map_some, hitsOver_rowInts, List.length_map, recallAt]

/-- For the same answers to the same queries, whose true neighbours are ten different rows
each, every client reports the same recall, which is the part of the true neighbours that was
found. -/
theorem clients_report_recall {answers : List (List ℕ)} {rounds : List Round}
    (hne : answers ≠ []) (hlen : rounds.length = answers.length)
    (hrows : ∀ rows ∈ answers, ∀ row ∈ rows, row < 2 ^ 63)
    (hgt : ∀ r ∈ rounds, r.row.length = topK ∧ r.row.Nodup) :
    (0 ≤ recallAt answers (rounds.map Round.row) ∧ recallAt answers (rounds.map Round.row) ≤ 1 ∧
      (recallAt answers (rounds.map Round.row) = 1 ↔
        ∀ q ∈ (answers.map rowInts).zip (rounds.map Round.row), ∀ x ∈ q.2, x ∈ q.1)) ∧
    hnswlibRecall (answers.map rowInts) (rounds.map Round.row) =
      recallAt answers (rounds.map Round.row) ∧
    qdrantRecall (answers.map rowInts) (rounds.map Round.row) =
      recallAt answers (rounds.map Round.row) ∧
    (∀ (count : List ℕ → Resp) (fields : ℕ → Resp),
      redisRecall (answers.map fun rows => redisReply (count rows) fields rows)
        (rounds.map Round.row) = some (recallAt answers (rounds.map Round.row))) ∧
    (∃ rep, qdrantLatency rounds.length ((answers.map rowInts).zip rounds) = some rep ∧
      Reports answers rounds rep) ∧
    (∀ results : List (List Result),
      results.map (fun rs => rs.map Result.id) = answers.map (fun rows => rows.map serverId) →
      ∃ rep, grpcLatency rounds.length (results.zip rounds) = some rep ∧
        Reports answers rounds rep) ∧
    ∀ (responses : List (List PyClient.Hit)) (queries : List (List UInt32)) (sock : PyClient.Sock),
      responses.map (fun hs => hs.map PyClient.Hit.id) =
        answers.map (fun rows => rows.map serverId) →
      (∀ hs ∈ responses, 9 + 12 * hs.length < 2 ^ 32) → queries.length = answers.length →
      (∀ q ∈ queries, 32 + 4 * q.length < 2 ^ 32) →
      sock.bytes = responses.flatMap PyClient.response →
      ∃ rep, PyClient.latency rounds.length (queries.zip rounds) sock = .ok rep ∧
        Reports answers rounds rep := by
  have hrounds : rounds ≠ [] := by
    rintro rfl
    exact hne (List.eq_nil_of_length_eq_zero hlen.symm)
  refine ⟨recall_bounds hne (by rw [List.length_map, hlen]) ?_, ?_, ?_, ?_, ?_, ?_, ?_⟩
  · intro row hrow
    obtain ⟨r, hr, rfl⟩ := List.mem_map.mp hrow
    exact hgt r hr
  · rw [hnswlibRecall, hitsOver_rowInts, List.length_map, recallAt]
  · rw [qdrantRecall, hitsOver_rowInts, List.length_map, recallAt]
  · exact fun count fields => redisRecall_eq count fields answers _
  · exact qdrantLatency_reports hrounds hlen
  · exact fun results hids => grpcLatency_reports hrounds hlen hrows hids
  · intro responses queries sock hids hsize hqueries hdim hsock
    exact PyClient.latency_reports hrounds hlen hrows hids hsize hqueries hdim hsock

/-- One query whose last neighbour is missed. -/
def nineOfTen : List (List ℕ) := [[0, 1, 2, 3, 4, 5, 6, 7, 8, 12]]

def oneRound : List Round := [{ row := [0, 1, 2, 3, 4, 5, 6, 7, 8, 9], t0 := 0, t1 := 1 / 1000 }]

/-- The answer of the server, with all distances zero. -/
def nineOfTenHits : List (List PyClient.Hit) :=
  nineOfTen.map fun rows => rows.map fun row => { id := serverId row, distBits := 0 }

theorem clients_report_recall_nine_of_ten :
    redisRecall (nineOfTen.map fun rows => redisReply (.int 10) (fun _ => .array []) rows)
        (oneRound.map Round.row) = some (9 / 10) ∧
      ∃ sock rep, PyClient.Sock.bytes sock = nineOfTenHits.flatMap PyClient.response ∧
        PyClient.latency 1 (List.zip [[0x3f800000]] oneRound) sock = .ok rep ∧
        rep.recallAt = 9 / 10 := by
  have hrecall : recallAt nineOfTen (oneRound.map Round.row) = 9 / 10 := by
    have hfound : found nineOfTen (oneRound.map Round.row) = 9 := by decide
    rw [recallAt, hfound, recallOf]
    norm_num [nineOfTen, topK]
  have hlen : oneRound.length = nineOfTen.length := rfl
  have hrows : ∀ rows ∈ nineOfTen, ∀ row ∈ rows, row < 2 ^ 63 := by decide
  have hgt : ∀ r ∈ oneRound, r.row.length = topK ∧ r.row.Nodup := by decide
  obtain ⟨-, -, -, hredis, -, -, hwire⟩ := clients_report_recall (by decide) hlen hrows hgt
  refine ⟨?_, ?_⟩
  · rw [← hrecall]
    exact hredis (fun _ => .int 10) fun _ => .array []
  · obtain ⟨rep, hrep, hreports⟩ := hwire nineOfTenHits [[0x3f800000]]
      ⟨nineOfTenHits.map PyClient.response, by decide, []⟩ rfl (by decide) rfl (by decide) rfl
    exact ⟨_, rep, rfl, hrep, hreports.recall_eq.trans hrecall⟩

end RostamBench.Sift1m
