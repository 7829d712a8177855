import RostamBench.Lib.BigEndian
import RostamBench.Lib.Json

/-!
The request bodies of the VectorDBBench client, in both framings.

`_binary_body` and `_query_body` write the binary wires RVB1 and RVQ1;
`_json_body` and the last part of `search_embedding` build the JSON bodies they
replace. The decoders follow the grammars in the comments of `rostam.py` and in
the README, and refuse a body with a byte too few or too many.

A float32 is an opaque 32-bit pattern, in a row of the array as on the wire and
in the list `tolist` makes of it.
-/

namespace RostamBench.Vectordbbench

open BigEndian

/-- The exceptions an encoder raises. -/
inductive EncodeErr
  | overflowError
  | valueError
  /-- `struct.error`: a number that does not fit its field. -/
  | structError
  deriving DecidableEq, Repr

/-- A two-dimensional float32 array. -/
structure F32Array where
  dim : ℕ
  rows : List (List UInt32)
  shape : ∀ row ∈ rows, row.length = dim

/-- `a[start:stop]`. -/
def F32Array.slice (a : F32Array) (start stop : ℕ) : F32Array where
  dim := a.dim
  rows := (a.rows.drop start).take (stop - start)
  shape row h := a.shape row (List.mem_of_mem_drop (List.mem_of_mem_take h))

/-- `struct.pack(">I", v)`. -/
def packU32 (v : ℤ) : Except EncodeErr Bytes :=
  if 0 ≤ v ∧ v < 2 ^ 32 then .ok (bytesOf 4 v.toNat) else .error .structError

def f32Bytes (x : UInt32) : Bytes := bytesOf 4 x.toNat

/-! ### The bulk bodies -/

/-- A point, with its metadata object when there is one. -/
structure Point where
  id : ℤ
  vector : List UInt32
  metadata : Option Json.Value

/-- The JSON body of an insert; `upsert` is the field of that name, when
set. -/
structure JsonBody where
  points : List Point
  upsert : Option Bool

/-- `{"id": {"kind": "int", "int": i}}`. -/
def idMetadata (i : ℤ) : Json.Value :=
  .obj [("id", .obj [("kind", .str "int"), ("int", .int i)])]

/-- `_json_body`. -/
def jsonBody (ids : List ℤ) (rows : F32Array) (payloads upsert : Bool) : JsonBody where
  points := (ids.zip rows.rows).map fun (i, v) =>
    { id := i, vector := v, metadata := if payloads then some (idMetadata i) else none }
  upsert := if upsert then some true else none

def bulkMagic : Bytes := [0x52, 0x56, 0x42, 0x31]

def bulkFlags (payloads upsert : Bool) : ℕ :=
  (if payloads then 1 <<< 0 else 0) ||| (if upsert then 1 <<< 1 else 0)

/-- `rec["id"] = ids` for `n` records: a single id is broadcast, any other
difference in length is an error, and so is an id that is no `u8`. -/
def assignIds (n : ℕ) (ids : List ℤ) : Except EncodeErr (List ℤ) :=
  if ids.any (fun i => decide (i < 0 ∨ 2 ^ 64 ≤ i)) then .error .overflowError
  else if ids.length = n then .ok ids
  else
    match ids with
    | [i] => .ok (List.replicate n i)
    | _ => .error .valueError

/-- `[id u64][dim x f32]`. -/
def rowBytes (r : ℤ × List UInt32) : Bytes := bytesOf 8 r.1.toNat ++ r.2.flatMap f32Bytes

/-- `b'{"id":{"kind":"int","int":%d}}' % i`. -/
def payloadBlob (i : ℤ) : Bytes :=
  Json.encode ("\x7b\"id\":\x7b\"kind\":\"int\",\"int\":".toList ++
    (Json.intText i ++ "\x7d\x7d".toList))

/-- `[len u32][blob]`. -/
def payloadBytes (i : ℤ) : Except EncodeErr Bytes := do
  let len ← packU32 (payloadBlob i).length
  .ok (len ++ payloadBlob i)

/-- `_binary_body`. -/
def binaryBody (ids : List ℤ) (rows : F32Array) (upsert payloads : Bool) :
    Except EncodeErr Bytes := do
  let flags ← packU32 (bulkFlags payloads upsert)
  let n ← packU32 rows.rows.length
  let dim ← packU32 rows.dim
  let recIds ← assignIds rows.rows.length ids
  let pays ← if payloads then ids.mapM payloadBytes else .ok []
  .ok (bulkMagic ++ flags ++ n ++ dim ++ (recIds.zip rows.rows).flatMap rowBytes ++ pays.flatten)

/-- What a bulk request asks for, in either framing. -/
structure BulkRequest where
  points : List Point
  upsert : Bool

/-- The meaning of the JSON body. -/
def JsonBody.request (b : JsonBody) : BulkRequest where
  points := b.points
  upsert := b.upsert == some true

/-- One float of a row. -/
def takeF32 (bs : Bytes) : Option (UInt32 × Bytes) :=
  (takeNat 4 bs).map fun (x, bs) => (UInt32.ofNat x, bs)

/-- `[id u64][dim x f32]`. -/
def takeRow (dim : ℕ) (bs : Bytes) : Option ((ℤ × List UInt32) × Bytes) := do
  let (i, bs) ← takeNat 8 bs
  let (v, bs) ← takeList takeF32 dim bs
  some (((i : ℤ), v), bs)

/-- `[len u32][len bytes of JSON]`. -/
def takeJson (bs : Bytes) : Option (Json.Value × Bytes) := do
  let (len, bs) ← takeNat 4 bs
  let (blob, bs) ← takeBytes len bs
  let v ← Json.loads blob
  some (v, bs)

/-- The RVB1 grammar; all bytes belong to the request. -/
def decodeBulk (bs : Bytes) : Option BulkRequest := do
  let (magic, bs) ← takeBytes 4 bs
  if magic ≠ bulkMagic then none
  else
    let (flags, bs) ← takeNat 4 bs
    let (count, bs) ← takeNat 4 bs
    let (dim, bs) ← takeNat 4 bs
    let (rows, bs) ← takeList (takeRow dim) count bs
    let (pays, bs) ←
      if flags.testBit 0 then
        (takeList takeJson count bs).map fun (vs, bs) => (vs.map some, bs)
      else some (List.replicate count none, bs)
    if bs ≠ [] then none
    else
      some { points := (rows.zip pays).map fun (r, m) =>
               { id := r.1, vector := r.2, metadata := m }
             upsert := flags.testBit 1 }

/-! ### Fields -/

theorem packU32_ok {v : ℕ} (hv : v < 2 ^ 32) : packU32 v = .ok (bytesOf 4 v) := by
  have hrange : 0 ≤ (v : ℤ) ∧ (v : ℤ) < 2 ^ 32 := by omega
  rw [packU32, if_pos hrange, Int.toNat_natCast]

theorem exists_of_bind_ok {α β : Type} {x : Except EncodeErr α} {f : α → Except EncodeErr β} {b : β}
    (h : (x >>= f) = .ok b) : ∃ a, x = .ok a ∧ f a = .ok b := by
  cases x with
  | error e => cases h
  | ok a => exact ⟨a, rfl, h⟩

theorem range_of_packU32 {v : ℤ} {b : Bytes} (h : packU32 v = .ok b) : 0 ≤ v ∧ v < 2 ^ 32 := by
  unfold packU32 at h
  split at h
  · assumption
  · cases h

theorem takeF32_f32Bytes (x : UInt32) (rest : Bytes) :
    takeF32 (f32Bytes x ++ rest) = some (x, rest) := by
  rw [takeF32, f32Bytes, takeNat_bytesOf (by simpa using x.toNat_lt)]
  simp

theorem takeList_f32Bytes (v : List UInt32) (rest : Bytes) :
    takeList takeF32 v.length (v.flatMap f32Bytes ++ rest) = some (v, rest) := by
  rw [takeList_flatMap (g := id) v (fun x _ rest => takeF32_f32Bytes x rest), List.map_id]

theorem takeRow_rowBytes {dim : ℕ} {r : ℤ × List UInt32} (hid : 0 ≤ r.1 ∧ r.1 < 2 ^ 64)
    (hdim : r.2.length = dim) (rest : Bytes) :
    takeRow dim (rowBytes r ++ rest) = some (r, rest) := by
  subst hdim
  have hnat : r.1.toNat < 256 ^ 8 := by omega
  have hcast : (r.1.toNat : ℤ) = r.1 := Int.toNat_of_nonneg hid.1
  rw [takeRow, rowBytes, List.append_assoc, takeNat_bytesOf hnat]
  simp [takeList_f32Bytes, hcast]

theorem takeJson_of_loads {blob : Bytes} {v : Json.Value} (hlen : blob.length < 2 ^ 32)
    (hv : Json.loads blob = some v) (rest : Bytes) :
    takeJson (bytesOf 4 blob.length ++ blob ++ rest) = some (v, rest) := by
  rw [takeJson, List.append_assoc, takeNat_bytesOf (by omega)]
  simp [takeBytes_append rfl, hv]

/-! ### The payload blobs -/

/-- The hand-built blob is the compact text of the metadata object. -/
theorem payloadBlob_eq_dumps (i : ℤ) :
    payloadBlob i = Json.encode (Json.dumps [] (idMetadata i)) := by
  have hid : Json.strText "id" = "\"id\"".toList := by decide
  have hkind : Json.strText "kind" = "\"kind\"".toList := by decide
  have hint : Json.strText "int" = "\"int\"".toList := by decide
  rw [payloadBlob, idMetadata]
  simp only [Json.dumps, Json.dumpsMembers, hid, hkind, hint, List.append_assoc,
    List.cons_append, List.nil_append]
  rfl

theorem loads_payloadBlob (i : ℤ) : Json.loads (payloadBlob i) = some (idMetadata i) := by
  rw [payloadBlob_eq_dumps]
  exact Json.loads_encode_dumps (by simp) _

theorem length_payloadBlob {i : ℤ} (hi : 0 ≤ i ∧ i < 2 ^ 64) :
    (payloadBlob i).length < 2 ^ 32 := by
  obtain ⟨n, rfl⟩ := Int.eq_ofNat_of_zero_le hi.1
  have hdigits : (Json.natText n).length ≤ 20 :=
    (Nat.length_toDigits_le_iff (by decide) (by decide)).mpr (by omega)
  have hlen := Json.length_encode_le ("\x7b\"id\":\x7b\"kind\":\"int\",\"int\":".toList ++
    (Json.natText n ++ "\x7d\x7d".toList))
  have hopen : "\x7b\"id\":\x7b\"kind\":\"int\",\"int\":".toList.length = 26 := by decide
  have hclose : "\x7d\x7d".toList.length = 2 := by decide
  rw [List.length_append, List.length_append, hopen, hclose] at hlen
  calc (payloadBlob n).length ≤ 4 * (26 + ((Json.natText n).length + 2)) := hlen
    _ ≤ 4 * 48 := by omega
    _ < 2 ^ 32 := by decide

theorem payloadBytes_ok {i : ℤ} (hi : 0 ≤ i ∧ i < 2 ^ 64) :
    payloadBytes i = .ok (bytesOf 4 (payloadBlob i).length ++ payloadBlob i) := by
  rw [payloadBytes, packU32_ok (length_payloadBlob hi)]
  rfl

theorem mapM_payloadBytes {ids : List ℤ} (hids : ∀ i ∈ ids, 0 ≤ i ∧ i < 2 ^ 64) :
    ids.mapM payloadBytes =
      .ok (ids.map fun i => bytesOf 4 (payloadBlob i).length ++ payloadBlob i) := by
  induction ids with
  | nil => rfl
  | cons i ids ih =>
      have ih := ih fun j hj => hids j (by simp [hj])
      rw [List.mapM_cons, payloadBytes_ok (hids i (by simp)), ih]
      rfl

theorem assignIds_ok {ids : List ℤ} {n : ℕ} (hids : ∀ i ∈ ids, 0 ≤ i ∧ i < 2 ^ 64)
    (hlen : ids.length = n) : assignIds n ids = .ok ids := by
  have hrange : ¬ (ids.any (fun i => decide (i < 0 ∨ 2 ^ 64 ≤ i)) = true) := by
    rw [List.any_eq_true]
    rintro ⟨i, hi, hout⟩
    have hin := hids i hi
    have hout : i < 0 ∨ 2 ^ 64 ≤ i := by simpa using hout
    omega
  unfold assignIds
  rw [if_neg hrange, if_pos hlen]

theorem range_of_assignIds {ids recIds : List ℤ} {n : ℕ} (h : assignIds n ids = .ok recIds) :
    ∀ i ∈ ids, 0 ≤ i ∧ i < 2 ^ 64 := by
  unfold assignIds at h
  split at h
  · cases h
  · rename_i hany
    intro i hi
    by_contra hout
    refine hany (List.any_eq_true.mpr ⟨i, hi, ?_⟩)
    simp only [decide_eq_true_eq]
    omega

/-! ### The two bulk bodies mean the same -/

theorem bulkFlags_lt (payloads upsert : Bool) : bulkFlags payloads upsert < 2 ^ 32 := by
  cases payloads <;> cases upsert <;> decide

theorem bulkFlags_payloads (payloads upsert : Bool) :
    (bulkFlags payloads upsert).testBit 0 = payloads := by
  cases payloads <;> cases upsert <;> decide

theorem bulkFlags_upsert (payloads upsert : Bool) :
    (bulkFlags payloads upsert).testBit 1 = upsert := by
  cases payloads <;> cases upsert <;> decide

/-- The records and the payloads that follow them, put together again. -/
theorem zip_payloads (ids : List ℤ) (vs : List (List UInt32)) (g : ℤ → Option Json.Value) :
    ((ids.zip vs).zip (ids.map g)).map
      (fun x => ({ id := x.1.1, vector := x.1.2, metadata := x.2 } : Point)) =
      (ids.zip vs).map fun (i, v) => { id := i, vector := v, metadata := g i } := by
  induction ids generalizing vs with
  | nil => rfl
  | cons i ids ih =>
      cases vs with
      | nil => rfl
      | cons v vs => simpa using ih vs

section Bulk

variable {ids : List ℤ} {rows : F32Array} (hids : ∀ i ∈ ids, 0 ≤ i ∧ i < 2 ^ 64)
  (hlen : ids.length = rows.rows.length)

include hids hlen

theorem takeList_rows (rest : Bytes) :
    takeList (takeRow rows.dim) ids.length ((ids.zip rows.rows).flatMap rowBytes ++ rest) =
      some (ids.zip rows.rows, rest) := by
  have hrow : ∀ r ∈ ids.zip rows.rows, ∀ rest,
      takeRow rows.dim (rowBytes r ++ rest) = some (id r, rest) := by
    rintro ⟨i, v⟩ hr rest
    obtain ⟨hi, hv⟩ := List.of_mem_zip hr
    exact takeRow_rowBytes (hids i hi) (rows.shape v hv) rest
  have hcount : ids.length = (ids.zip rows.rows).length := by simp [hlen]
  rw [hcount, takeList_flatMap _ hrow, List.map_id]

omit hlen in
theorem takeList_payloads (rest : Bytes) :
    takeList takeJson ids.length
      ((ids.map fun i => bytesOf 4 (payloadBlob i).length ++ payloadBlob i).flatten ++ rest) =
      some (ids.map idMetadata, rest) := by
  have hjson : ∀ i ∈ ids, ∀ rest,
      takeJson (bytesOf 4 (payloadBlob i).length ++ payloadBlob i ++ rest) =
        some (idMetadata i, rest) :=
    fun i hi rest => takeJson_of_loads (length_payloadBlob (hids i hi)) (loads_payloadBlob i) rest
  rw [← List.flatMap_def]
  exact takeList_flatMap ids hjson rest

/-- The bytes of the binary body. -/
theorem binaryBody_ok (hn : rows.rows.length < 2 ^ 32) (hdim : rows.dim < 2 ^ 32)
    (upsert payloads : Bool) :
    binaryBody ids rows upsert payloads =
      .ok (bulkMagic ++ bytesOf 4 (bulkFlags payloads upsert) ++ bytesOf 4 ids.length ++
        bytesOf 4 rows.dim ++ (ids.zip rows.rows).flatMap rowBytes ++
        (if payloads then ids.map fun i => bytesOf 4 (payloadBlob i).length ++ payloadBlob i
          else []).flatten) := by
  rw [binaryBody, packU32_ok (bulkFlags_lt payloads upsert), packU32_ok hn, packU32_ok hdim,
    assignIds_ok hids hlen, mapM_payloadBytes hids, hlen]
  cases payloads <;> rfl

theorem decodeBulk_binaryBody (hn : rows.rows.length < 2 ^ 32) (hdim : rows.dim < 2 ^ 32)
    {upsert payloads : Bool} {body : Bytes}
    (hbody : binaryBody ids rows upsert payloads = .ok body) :
    decodeBulk body = some (jsonBody ids rows payloads upsert).request := by
  obtain rfl := Except.ok.inj
    ((binaryBody_ok hids hlen hn hdim upsert payloads).symm.trans hbody)
  have hmagic : bulkMagic.length = 4 := rfl
  have hflags : bulkFlags payloads upsert < 256 ^ 4 := bulkFlags_lt payloads upsert
  have hcount : ids.length < 256 ^ 4 := by omega
  have hdim : rows.dim < 256 ^ 4 := by omega
  simp only [decodeBulk, List.append_assoc, takeBytes_append hmagic, takeNat_bytesOf hflags,
    takeNat_bytesOf hcount, takeNat_bytesOf hdim, takeList_rows hids hlen, bulkFlags_payloads,
    bulkFlags_upsert, Option.bind_eq_bind, Option.bind_some, ne_eq, not_true_eq_false, if_false]
  cases payloads with
  | true =>
      have hpays := takeList_payloads hids []
      rw [List.append_nil] at hpays
      have hpoints := zip_payloads ids rows.rows fun i => some (idMetadata i)
      simp only [if_true, hpays, Option.map_some, Option.bind_some, not_true_eq_false, if_false,
        List.map_map, Function.comp_def, hpoints]
      cases upsert <;> rfl
  | false =>
      have hnone : List.replicate ids.length (none : Option Json.Value) =
          ids.map fun _ => none := by simp
      have hpoints := zip_payloads ids rows.rows fun _ => none
      simp only [Bool.false_eq_true, if_false, List.flatten_nil, not_true_eq_false,
        hnone, hpoints]
      cases upsert <;> rfl

/-- The binary body of a chunk, read by the RVB1 grammar to its last byte, asks
for exactly what the JSON body asks for. -/
theorem binary_body_refines_json_body (hn : rows.rows.length < 2 ^ 32)
    (hdim : rows.dim < 2 ^ 32) (upsert payloads : Bool) :
    ∃ body, binaryBody ids rows upsert payloads = .ok body ∧
      decodeBulk body = some (jsonBody ids rows payloads upsert).request := by
  have hbody := binaryBody_ok hids hlen hn hdim upsert payloads
  exact ⟨_, hbody, decodeBulk_binaryBody hids hlen hn hdim hbody⟩

omit hids in
/-- Whenever `_binary_body` returns, what it returned decodes. -/
theorem decodeBulk_of_ok {upsert payloads : Bool} {body : Bytes}
    (hbody : binaryBody ids rows upsert payloads = .ok body) :
    decodeBulk body = some (jsonBody ids rows payloads upsert).request := by
  have h := hbody
  obtain ⟨flags, _, h⟩ := exists_of_bind_ok h
  obtain ⟨n, hn, h⟩ := exists_of_bind_ok h
  obtain ⟨dim, hdim, h⟩ := exists_of_bind_ok h
  obtain ⟨recIds, hrec, _⟩ := exists_of_bind_ok h
  have hn := range_of_packU32 hn
  have hdim := range_of_packU32 hdim
  exact decodeBulk_binaryBody (range_of_assignIds hrec) hlen (by omega) (by omega) hbody

end Bulk

/-- Two points of dimension two. -/
def twoRows : F32Array where
  dim := 2
  rows := [[0x3f800000, 0x40000000], [0, 0xbf800000]]
  shape := by decide

theorem binary_body_refines_json_body_two_points :
    ∃ body, binaryBody [3, 2 ^ 64 - 1] twoRows true true = .ok body ∧
      decodeBulk body = some (jsonBody [3, 2 ^ 64 - 1] twoRows true true).request :=
  binary_body_refines_json_body (by decide) rfl (by decide) (by decide) true true

/-! ### The query bodies -/

/-- The JSON body of a search; `filter` is the field of that name, when set. -/
structure JsonQuery where
  query : List UInt32
  k : ℤ
  filter : Option Json.Value

/-- What a search asks for, in either framing. The read consistency `rc`, its
argument `opa` and the staleness are the server's defaults in a JSON body. -/
structure SearchRequest where
  query : List UInt32
  k : ℤ
  rc : ℕ
  opa : ℕ
  staleness : ℕ
  filter : Option Json.Value

/-- The meaning of the JSON body. -/
def JsonQuery.request (q : JsonQuery) : SearchRequest where
  query := q.query
  k := q.k
  rc := 0
  opa := 0
  staleness := 0
  filter := q.filter

def queryMagic : Bytes := [0x52, 0x56, 0x51, 0x31]

/-- `_query_body`; an empty filter blob is no filter. -/
def queryBody (query : List UInt32) (k : ℤ) (filterBlob : Bytes) : Except EncodeErr Bytes := do
  let flags ← packU32 (if filterBlob ≠ [] then 1 <<< 0 else 0)
  let k ← packU32 k
  let size ← packU32 query.length
  let out := queryMagic ++ flags ++ k ++ size ++ bytesOf 1 0 ++ bytesOf 1 0 ++ bytesOf 2 0 ++
    bytesOf 8 0 ++ query.flatMap f32Bytes
  if filterBlob ≠ [] then do
    let len ← packU32 filterBlob.length
    .ok (out ++ (len ++ filterBlob))
  else .ok out

/-- The RVQ1 grammar; all bytes belong to the request. -/
def decodeQuery (bs : Bytes) : Option SearchRequest := do
  let (magic, bs) ← takeBytes 4 bs
  if magic ≠ queryMagic then none
  else
    let (flags, bs) ← takeNat 4 bs
    let (k, bs) ← takeNat 4 bs
    let (dim, bs) ← takeNat 4 bs
    let (rc, bs) ← takeNat 1 bs
    let (opa, bs) ← takeNat 1 bs
    let (reserved, bs) ← takeNat 2 bs
    let (staleness, bs) ← takeNat 8 bs
    let (query, bs) ← takeList takeF32 dim bs
    let (filter, bs) ←
      if flags.testBit 0 then (takeJson bs).map fun (v, bs) => (some v, bs)
      else some (none, bs)
    if reserved ≠ 0 ∨ bs ≠ [] then none
    else some { query := query, k := k, rc := rc, opa := opa, staleness := staleness,
                filter := filter }

/-- Everything `_query_body` packs fits its field. -/
def QueryFits (query : List UInt32) (k : ℤ) (filterBlob : Bytes) : Prop :=
  (0 ≤ k ∧ k < 2 ^ 32) ∧ query.length < 2 ^ 32 ∧ filterBlob.length < 2 ^ 32

/-- The bytes of the binary query. -/
theorem queryBody_ok {query : List UInt32} {k : ℤ} {filterBlob : Bytes}
    (h : QueryFits query k filterBlob) :
    queryBody query k filterBlob =
      .ok (queryMagic ++ bytesOf 4 (if filterBlob ≠ [] then 1 else 0) ++ bytesOf 4 k.toNat ++
        bytesOf 4 query.length ++ bytesOf 1 0 ++ bytesOf 1 0 ++ bytesOf 2 0 ++ bytesOf 8 0 ++
        query.flatMap f32Bytes ++
        if filterBlob ≠ [] then bytesOf 4 filterBlob.length ++ filterBlob else []) := by
  obtain ⟨hk, hsize, hblob⟩ := h
  have hkpack : packU32 k = .ok (bytesOf 4 k.toNat) := by rw [packU32, if_pos hk]
  rw [queryBody, hkpack, packU32_ok hsize, packU32_ok hblob]
  by_cases hfilter : filterBlob = []
  · simp [hfilter]
    rfl
  · simp [hfilter]
    rfl

/-- A body comes out exactly when everything fits. -/
theorem queryBody_isOk_iff (query : List UInt32) (k : ℤ) (filterBlob : Bytes) :
    (∃ body, queryBody query k filterBlob = .ok body) ↔ QueryFits query k filterBlob := by
  constructor
  · rintro ⟨body, h⟩
    obtain ⟨flags, _, h⟩ := exists_of_bind_ok h
    obtain ⟨kb, hk, h⟩ := exists_of_bind_ok h
    obtain ⟨size, hsize, h⟩ := exists_of_bind_ok h
    have hsize := range_of_packU32 hsize
    refine ⟨range_of_packU32 hk, by omega, ?_⟩
    by_cases hfilter : filterBlob = []
    · simp [hfilter]
    · rw [if_pos hfilter] at h
      obtain ⟨len, hlen, _⟩ := exists_of_bind_ok h
      have hlen := range_of_packU32 hlen
      omega
  · intro h
    exact ⟨_, queryBody_ok h⟩

/-- The binary query, read by the RVQ1 grammar to its last byte, asks for the
query, `k` and the filter whose text the blob is. -/
theorem decodeQuery_queryBody {query : List UInt32} {k : ℤ} {filterBlob : Bytes}
    (filter : Option Json.Value) (h : QueryFits query k filterBlob)
    (hfilter : match filter with
      | none => filterBlob = []
      | some v => filterBlob ≠ [] ∧ Json.loads filterBlob = some v) {body : Bytes}
    (hbody : queryBody query k filterBlob = .ok body) :
    decodeQuery body = some { query := query, k := k, filter := filter : JsonQuery }.request := by
  obtain rfl := Except.ok.inj ((queryBody_ok h).symm.trans hbody)
  obtain ⟨hk, hsize, hblob⟩ := h
  have hmagic : queryMagic.length = 4 := rfl
  have hflags : (if filterBlob ≠ [] then 1 else 0) < 256 ^ 4 := by split <;> decide
  have hknat : k.toNat < 256 ^ 4 := by omega
  have hsize : query.length < 256 ^ 4 := by omega
  have hzero (n : ℕ) (rest : Bytes) : takeNat n (bytesOf n 0 ++ rest) = some (0, rest) :=
    takeNat_bytesOf (by positivity) rest
  simp only [List.append_assoc]
  -- Field by field, in the order of the grammar.
  refine bind_of_eq_some (takeBytes_append hmagic _) ?_
  refine (if_neg (not_not.mpr rfl)).trans ?_
  refine bind_of_eq_some (takeNat_bytesOf hflags _) ?_
  refine bind_of_eq_some (takeNat_bytesOf hknat _) ?_
  refine bind_of_eq_some (takeNat_bytesOf hsize _) ?_
  refine bind_of_eq_some (hzero 1 _) ?_
  refine bind_of_eq_some (hzero 1 _) ?_
  refine bind_of_eq_some (hzero 2 _) ?_
  refine bind_of_eq_some (hzero 8 _) ?_
  refine bind_of_eq_some (takeList_f32Bytes ..) ?_
  cases filter with
  | none =>
      subst hfilter
      simp [JsonQuery.request, hk.1]
  | some v =>
      obtain ⟨hne, hv⟩ := hfilter
      have hjson := takeJson_of_loads hblob hv []
      rw [List.append_nil] at hjson
      simp [hne, hjson, JsonQuery.request, hk.1]

end RostamBench.Vectordbbench
