import RostamBench.Vectordbbench.Wire

/-!
The Python wire client of the SIFT server: `encode_search`, `_recvn` and `search`.

A request is one frame with three nested lengths; `decodeRequest` is the grammar of
the module's docstring, and refuses a frame with a byte too few or too many.

A socket (`Sock`) holds the bytes that are still to come, in the pieces in which
`recv_into` will hand them out. What `_recvn` returns and what it leaves behind
depends on the bytes only and not on the pieces (`recvn_eq`), so a call of `search`
takes exactly one response off the stream, however it was split.
-/

namespace RostamBench.Sift1m.PyClient

open BigEndian Vectordbbench

/-! ### Requests -/

/-- `OP = b"vector_search"`. -/
def opName : Bytes := Json.encode "vector_search".toList

/-- `COLL = b"sift"`. -/
def coll : Bytes := Json.encode "sift".toList

/-- The args of a search, as far as they are there before their length is. A query is given by
the bits of its numbers; `struct.pack` would set the quiet bit of a signalling NaN, so there is
none among them. -/
def searchArgs (query : List UInt32) (k : ℤ) : Except EncodeErr Bytes := do
  let kBytes ← packU32 k
  let dim ← packU32 query.length
  .ok (bytesOf 1 0 ++ bytesOf 1 coll.length ++ coll ++ kBytes ++ dim ++ query.flatMap f32Bytes)

def encodeSearch (query : List UInt32) (k : ℤ) : Except EncodeErr Bytes := do
  let args ← searchArgs query k
  let argsLen ← packU32 args.length
  let body := bytesOf 1 opName.length ++ opName ++ argsLen ++ args
  let bodyLen ← packU32 body.length
  .ok (bodyLen ++ body)

/-- What a request asks for. -/
structure Request where
  op : Bytes
  flags : ℕ
  collection : Bytes
  k : ℕ
  dim : ℕ
  query : List UInt32
  deriving DecidableEq, Repr

/-- `[flags:1][colLen:1][col][k:4][dim:4][query: dim*float32]`, and nothing after
it. -/
def decodeArgs (op args : Bytes) : Option Request := do
  let (flags, bs) ← takeNat 1 args
  let (colLen, bs) ← takeNat 1 bs
  let (collection, bs) ← takeBytes colLen bs
  let (k, bs) ← takeNat 4 bs
  let (dim, bs) ← takeNat 4 bs
  let (query, bs) ← takeList takeF32 dim bs
  if bs = [] then
    some { op := op, flags := flags, collection := collection, k := k, dim := dim, query := query }
  else none

/-- `[len:4][opNameLen:1][op][argsLen:4][args]`; the lengths account for all
bytes. -/
def decodeRequest (frame : Bytes) : Option Request := do
  let (len, body) ← takeNat 4 frame
  if body.length ≠ len then none
  else
    let (opLen, bs) ← takeNat 1 body
    let (op, bs) ← takeBytes opLen bs
    let (argsLen, args) ← takeNat 4 bs
    if args.length ≠ argsLen then none else decodeArgs op args

/-- An encoder goes on with what a field is packed to. -/
theorem bind_of_eq_ok {ε α β : Type} {x : Except ε α} {a : α} {f : α → Except ε β}
    {b : Except ε β} (hx : x = .ok a) (hf : f a = b) : x >>= f = b := by
  rw [hx]
  exact hf

variable {query : List UInt32} {k : ℕ}

/-- The bytes of the args. -/
def argsOf (query : List UInt32) (k : ℕ) : Bytes :=
  bytesOf 1 0 ++ (bytesOf 1 4 ++ (coll ++ (bytesOf 4 k ++ (bytesOf 4 query.length ++
    query.flatMap f32Bytes))))

theorem length_argsOf (query : List UInt32) (k : ℕ) :
    (argsOf query k).length = 14 + 4 * query.length := by
  have hquery : (query.flatMap f32Bytes).length = 4 * query.length := by
    induction query with
    | nil => rfl
    | cons x query ih =>
        rw [List.flatMap_cons, List.length_append, ih, f32Bytes, length_bytesOf, List.length_cons]
        omega
  have hcoll : coll.length = 4 := by decide
  simp only [argsOf, List.length_append, length_bytesOf, hcoll, hquery]
  omega

theorem searchArgs_eq (hk : k < 2 ^ 32) (hdim : query.length < 2 ^ 32) :
    searchArgs query k = .ok (argsOf query k) := by
  have hcoll : coll.length = 4 := by decide
  rw [searchArgs, packU32_ok hk, packU32_ok hdim, argsOf, hcoll]
  simp only [List.append_assoc]
  rfl

theorem decodeArgs_argsOf (op : Bytes) (hk : k < 2 ^ 32) (hdim : query.length < 2 ^ 32) :
    decodeArgs op (argsOf query k) =
      some { op := op, flags := 0, collection := coll, k := k, dim := query.length,
             query := query } := by
  have hquery : takeList takeF32 query.length (query.flatMap f32Bytes) = some (query, []) := by
    have hlist := takeList_f32Bytes query []
    rwa [List.append_nil] at hlist
  rw [decodeArgs, argsOf]
  refine bind_of_eq_some (takeNat_bytesOf (by decide) _) ?_
  refine bind_of_eq_some (takeNat_bytesOf (by decide) _) ?_
  refine bind_of_eq_some (takeBytes_append (by decide) _) ?_
  refine bind_of_eq_some (takeNat_bytesOf hk _) ?_
  refine bind_of_eq_some (takeNat_bytesOf hdim _) ?_
  refine bind_of_eq_some hquery ?_
  rfl

/-- The bytes after the length of a frame. -/
def bodyOf (query : List UInt32) (k : ℕ) : Bytes :=
  bytesOf 1 opName.length ++ opName ++ bytesOf 4 (argsOf query k).length ++ argsOf query k

theorem length_bodyOf (query : List UInt32) (k : ℕ) :
    (bodyOf query k).length = 32 + 4 * query.length := by
  have hop : opName.length = 13 := by decide
  have hlen := length_argsOf query k
  simp only [bodyOf, List.length_append, length_bytesOf, hop, hlen]
  omega

theorem encodeSearch_eq (hk : k < 2 ^ 32) (hdim : 32 + 4 * query.length < 2 ^ 32) :
    encodeSearch query k = .ok (bytesOf 4 (bodyOf query k).length ++ bodyOf query k) := by
  have hargs := length_argsOf query k
  have hbody := length_bodyOf query k
  rw [encodeSearch]
  refine bind_of_eq_ok (searchArgs_eq hk (by omega)) ?_
  refine bind_of_eq_ok (packU32_ok (by omega)) ?_
  exact bind_of_eq_ok (packU32_ok (by rw [← bodyOf]; omega)) rfl

/-- The frame of a search is what the grammar says, to the last byte. -/
theorem decodeRequest_frame (hk : k < 2 ^ 32) (hdim : 32 + 4 * query.length < 2 ^ 32) :
    decodeRequest (bytesOf 4 (bodyOf query k).length ++ bodyOf query k) =
      some { op := opName, flags := 0, collection := coll, k := k, dim := query.length,
             query := query } := by
  have hargs := length_argsOf query k
  have hbody := length_bodyOf query k
  rw [decodeRequest]
  refine bind_of_eq_some (takeNat_bytesOf (by omega) _) ?_
  simp only [ne_eq, not_true_eq_false, if_false]
  rw [bodyOf, List.append_assoc, List.append_assoc]
  refine bind_of_eq_some (takeNat_bytesOf (by decide) _) ?_
  refine bind_of_eq_some (takeBytes_append rfl _) ?_
  refine bind_of_eq_some (takeNat_bytesOf (by omega) _) ?_
  simp only [not_true_eq_false, if_false]
  exact decodeArgs_argsOf opName hk (by omega)

/-! ### Sockets -/

/-- A socket: the bytes still to come, in the pieces in which they will be received,
and the bytes sent. -/
structure Sock where
  pieces : List Bytes
  nonempty : ∀ p ∈ pieces, p ≠ []
  sent : Bytes

/-- The bytes still to come. -/
def Sock.bytes (sock : Sock) : Bytes := sock.pieces.flatten

/-- `sock.recv_into(view, n)`: the next piece, or as much of it as fits, and nothing
once the server has closed. -/
def Sock.recvInto (sock : Sock) (n : ℕ) : Bytes × Sock :=
  match h : sock.pieces with
  | [] => ([], sock)
  | p :: ps =>
      if hn : p.length ≤ n then
        (p, { sock with
          pieces := ps
          nonempty := fun q hq => sock.nonempty q (by rw [h]; exact List.mem_cons_of_mem _ hq) })
      else
        (p.take n, { sock with
          pieces := p.drop n :: ps
          nonempty := by
            intro q hq
            rcases List.mem_cons.mp hq with rfl | hq
            · exact fun hnil => hn (List.drop_eq_nil_iff.mp hnil)
            · exact sock.nonempty q (by rw [h]; exact List.mem_cons_of_mem _ hq) })

def Sock.sendall (sock : Sock) (frame : Bytes) : Sock := { sock with sent := sock.sent ++ frame }

/-- The exceptions `search` raises. -/
inductive SearchErr
  /-- `ConnectionError("server closed")`. -/
  | serverClosed
  /-- `body[0]` of an empty body. -/
  | indexError
  /-- `RuntimeError(f"server status {status}")`. -/
  | serverStatus (status : UInt8)
  | structError
  deriving DecidableEq, Repr

/-- The loop of `_recvn`, with what it has got so far. -/
def recvLoop (n : ℕ) (buf : Bytes) (sock : Sock) : Except SearchErr (Bytes × Sock) :=
  if _hgot : buf.length < n then
    let (r, sock) := sock.recvInto (n - buf.length)
    if _hr : r.length = 0 then .error .serverClosed else recvLoop n (buf ++ r) sock
  else .ok (buf, sock)
termination_by n - buf.length
decreasing_by
  rw [List.length_append]
  omega

def recvn (sock : Sock) (n : ℕ) : Except SearchErr (Bytes × Sock) := recvLoop n [] sock

/-- A receive takes a part of what is to come, and not nothing. -/
theorem recvInto_cases {sock : Sock} {n : ℕ} (hn : 0 < n) (h : sock.bytes ≠ []) :
    ∃ r sock', sock.recvInto n = (r, sock') ∧ 0 < r.length ∧ r.length ≤ n ∧
      sock.bytes = r ++ sock'.bytes ∧ sock'.sent = sock.sent := by
  obtain ⟨pieces, hpieces, sent⟩ := sock
  cases pieces with
  | nil => exact absurd rfl h
  | cons p ps =>
      have hp : 0 < p.length := List.length_pos_of_ne_nil (hpieces p List.mem_cons_self)
      by_cases hle : p.length ≤ n
      · refine ⟨p, ⟨ps, fun q hq => hpieces q (List.mem_cons_of_mem _ hq), sent⟩, ?_, hp, hle, rfl,
          rfl⟩
        simp only [Sock.recvInto, dif_pos hle]
      · have hdrop : p.drop n ≠ [] := fun hnil => hle (List.drop_eq_nil_iff.mp hnil)
        refine ⟨p.take n, ⟨p.drop n :: ps, List.forall_mem_cons.mpr
          ⟨hdrop, fun q hq => hpieces q (List.mem_cons_of_mem _ hq)⟩, sent⟩, ?_, ?_, ?_, ?_, rfl⟩
        · simp only [Sock.recvInto, dif_neg hle]
        · rw [List.length_take]
          omega
        · exact List.length_take_le n p
        · show p ++ ps.flatten = p.take n ++ (p.drop n ++ ps.flatten)
          rw [← List.append_assoc, List.take_append_drop]

/-- The loop gets what it asks for, whatever the pieces. -/
theorem recvLoop_eq {sock : Sock} {n : ℕ} {buf : Bytes} (hbuf : buf.length ≤ n)
    (h : n - buf.length ≤ sock.bytes.length) :
    ∃ sock', recvLoop n buf sock = .ok (buf ++ sock.bytes.take (n - buf.length), sock') ∧
      sock'.bytes = sock.bytes.drop (n - buf.length) ∧ sock'.sent = sock.sent := by
  induction hm : n - buf.length using Nat.strong_induction_on generalizing buf sock with
  | _ m ih =>
    subst hm
    rw [recvLoop]
    by_cases hgot : buf.length < n
    · have hne : sock.bytes ≠ [] := by
        intro hnil
        rw [hnil] at h
        simp at h
        omega
      obtain ⟨r, sock', hrecv, hpos, hle, hbytes, hsent⟩ :=
        recvInto_cases (show 0 < n - buf.length by omega) hne
      have hlen : (buf ++ r).length = buf.length + r.length := List.length_append
      have hrest : n - (buf ++ r).length ≤ sock'.bytes.length := by
        rw [hbytes, List.length_append] at h
        omega
      obtain ⟨sock'', hloop, hbytes'', hsent''⟩ :=
        ih (n - (buf ++ r).length) (by omega) (by omega) hrest rfl
      have hsplit : n - buf.length = r.length + (n - (buf ++ r).length) := by omega
      refine ⟨sock'', ?_, ?_, hsent''.trans hsent⟩
      · rw [dif_pos hgot, hrecv]
        simp only
        rw [dif_neg (by omega), hloop, hbytes, hsplit, List.take_append, List.append_assoc]
        simp
      · rw [hbytes'', hbytes, hsplit, List.drop_append]
        simp
    · have hzero : n - buf.length = 0 := by omega
      rw [dif_neg hgot, hzero]
      exact ⟨sock, by simp, by simp, rfl⟩

/-- `_recvn` takes the next `n` bytes off the stream. -/
theorem recvn_eq {sock : Sock} {xs rest : Bytes} (h : sock.bytes = xs ++ rest) :
    ∃ sock', recvn sock xs.length = .ok (xs, sock') ∧ sock'.bytes = rest ∧
      sock'.sent = sock.sent := by
  obtain ⟨sock', hloop, hbytes, hsent⟩ := recvLoop_eq (n := xs.length) (Nat.zero_le _)
    (show xs.length - ([] : Bytes).length ≤ sock.bytes.length by rw [h]; simp)
  refine ⟨sock', ?_, ?_, hsent⟩
  · rw [recvn, hloop, h]
    simp
  · rw [hbytes, h]
    simp

/-! ### Searches -/

/-- `struct.unpack` of one unsigned field of `n` bytes, which must be all there. -/
def unpack (n : ℕ) (bs : Bytes) : Except SearchErr ℕ :=
  if bs.length = n then .ok (natOf bs) else .error .structError

/-- `body[lo:hi]`, which is cut off at the end of the body. -/
def slice (body : Bytes) (lo hi : ℕ) : Bytes := (body.take hi).drop lo

/-- The ids of `count` hits from `off` on. -/
def readIds (body : Bytes) : ℕ → ℕ → Except SearchErr (List ℕ)
  | 0, _ => .ok []
  | count + 1, off => do
      let id ← unpack 8 (slice body off (off + 8))
      let ids ← readIds body count (off + 12)
      .ok (id :: ids)

/-- What `search` makes of the body of a response. -/
def parseResponse (body : Bytes) : Except SearchErr (List ℕ) :=
  match body with
  | [] => .error .indexError
  | status :: _ =>
      if status ≠ 0 then .error (.serverStatus status)
      else do
        let count ← unpack 4 (slice body 5 9)
        readIds body count 9

def search (sock : Sock) (frame : Bytes) : Except SearchErr (List ℕ × Sock) := do
  let (header, sock) ← recvn (sock.sendall frame) 4
  let blen ← unpack 4 header
  let (body, sock) ← recvn sock blen
  let ids ← parseResponse body
  .ok (ids, sock)

/-- Successive calls on one socket. -/
def searchAll (sock : Sock) : List Bytes → Except SearchErr (List (List ℕ) × Sock)
  | [] => .ok ([], sock)
  | frame :: frames => do
      let (ids, sock) ← search sock frame
      let (rest, sock) ← searchAll sock frames
      .ok (ids :: rest, sock)

/-- A hit of a response; the distance is kept by its bits. -/
structure Hit where
  id : UInt64
  distBits : UInt32
  deriving DecidableEq, Repr

def Hit.bytes (hit : Hit) : Bytes := bytesOf 8 hit.id.toNat ++ bytesOf 4 hit.distBits.toNat

/-- `[count:4][ count * (id:8, distBits:4) ]`. -/
def payload (hits : List Hit) : Bytes := bytesOf 4 hits.length ++ hits.flatMap Hit.bytes

/-- `[status:1][payloadLen:4][payload]`, with status 0. -/
def responseBody (hits : List Hit) : Bytes :=
  0 :: (bytesOf 4 (payload hits).length ++ payload hits)

def response (hits : List Hit) : Bytes := bytesOf 4 (responseBody hits).length ++ responseBody hits

variable {hits : List Hit}

theorem Hit.length_bytes (hit : Hit) : hit.bytes.length = 12 := by
  simp [Hit.bytes]

theorem length_flatMap_hits (hits : List Hit) :
    (hits.flatMap Hit.bytes).length = 12 * hits.length := by
  induction hits with
  | nil => rfl
  | cons hit hits ih =>
      rw [List.flatMap_cons, List.length_append, hit.length_bytes, ih, List.length_cons]
      omega

theorem length_responseBody (hits : List Hit) :
    (responseBody hits).length = 9 + 12 * hits.length := by
  have hhits := length_flatMap_hits hits
  simp only [responseBody, payload, List.length_cons, List.length_append, length_bytesOf, hhits]
  omega

theorem unpack_bytesOf {n v : ℕ} (h : v < 256 ^ n) : unpack n (bytesOf n v) = .ok v := by
  rw [unpack, if_pos (length_bytesOf n v), natOf_bytesOf_of_lt h]

/-- A slice of a body that is known up to the slice. -/
theorem slice_append {xs ys rest : Bytes} {lo hi : ℕ} (hlo : xs.length = lo)
    (hhi : lo + ys.length = hi) : slice (xs ++ (ys ++ rest)) lo hi = ys := by
  subst hlo hhi
  rw [slice, ← List.append_assoc, List.take_left' (by rw [List.length_append]),
    List.drop_left' rfl]

/-- The hits of a body, wherever they stand in it. -/
theorem readIds_hits (start : Bytes) (hits : List Hit) :
    readIds (start ++ hits.flatMap Hit.bytes) hits.length start.length =
      .ok (hits.map fun hit => hit.id.toNat) := by
  induction hits generalizing start with
  | nil => rfl
  | cons hit hits ih =>
      have hid : slice (start ++ (hit :: hits).flatMap Hit.bytes) start.length
          (start.length + 8) = bytesOf 8 hit.id.toNat := by
        rw [List.flatMap_cons, Hit.bytes, List.append_assoc]
        exact slice_append rfl (by rw [length_bytesOf])
      have hnext := ih (start ++ hit.bytes)
      rw [List.length_append, hit.length_bytes, List.append_assoc, ← List.flatMap_cons] at hnext
      rw [List.length_cons, readIds, hid]
      refine bind_of_eq_ok (unpack_bytesOf (by simpa using hit.id.toNat_lt)) ?_
      exact bind_of_eq_ok hnext rfl

theorem parseResponse_responseBody (h : 9 + 12 * hits.length < 2 ^ 32) :
    parseResponse (responseBody hits) = .ok (hits.map fun hit => hit.id.toNat) := by
  have hcount : slice (responseBody hits) 5 9 = bytesOf 4 hits.length := by
    rw [responseBody, payload, ← List.cons_append]
    exact slice_append (by simp) (by simp)
  have hids := readIds_hits (0 :: (bytesOf 4 (payload hits).length ++ bytesOf 4 hits.length)) hits
  have hbody : 0 :: (bytesOf 4 (payload hits).length ++ bytesOf 4 hits.length) ++
      hits.flatMap Hit.bytes = responseBody hits := by
    simp [responseBody, payload]
  have hstart : (0 :: (bytesOf 4 (payload hits).length ++ bytesOf 4 hits.length)).length = 9 := by
    simp
  rw [hbody, hstart] at hids
  show (unpack 4 (slice (responseBody hits) 5 9) >>= _) = _
  rw [hcount]
  exact bind_of_eq_ok (unpack_bytesOf (by omega)) hids

/-- A call of `search` returns the ids of the next response and takes exactly its
bytes off the stream. -/
theorem search_eq {sock : Sock} {rest : Bytes} (frame : Bytes) (h : 9 + 12 * hits.length < 2 ^ 32)
    (hsock : sock.bytes = response hits ++ rest) :
    ∃ sock', search sock frame = .ok (hits.map fun hit => hit.id.toNat, sock') ∧
      sock'.bytes = rest ∧ sock'.sent = sock.sent ++ frame := by
  have hlen := length_responseBody hits
  have hbytes : (sock.sendall frame).bytes =
      bytesOf 4 (responseBody hits).length ++ (responseBody hits ++ rest) := by
    rw [← List.append_assoc]
    exact hsock
  obtain ⟨sock₁, hheader, hbytes₁, hsent₁⟩ := recvn_eq hbytes
  obtain ⟨sock₂, hbody, hbytes₂, hsent₂⟩ := recvn_eq hbytes₁
  rw [length_bytesOf] at hheader
  refine ⟨sock₂, ?_, hbytes₂, hsent₂.trans hsent₁⟩
  rw [search]
  refine bind_of_eq_ok hheader ?_
  refine bind_of_eq_ok (unpack_bytesOf (by omega)) ?_
  refine bind_of_eq_ok hbody ?_
  exact bind_of_eq_ok (parseResponse_responseBody h) rfl

theorem searchAll_eq {responses : List (List Hit)} {frames : List Bytes} {sock : Sock}
    {rest : Bytes} (hframes : frames.length = responses.length)
    (h : ∀ hits ∈ responses, 9 + 12 * hits.length < 2 ^ 32)
    (hsock : sock.bytes = responses.flatMap response ++ rest) :
    ∃ sock', searchAll sock frames =
        .ok (responses.map fun hits => hits.map fun hit => hit.id.toNat, sock') ∧
      sock'.bytes = rest ∧ sock'.sent = sock.sent ++ frames.flatten := by
  induction responses generalizing frames sock with
  | nil =>
      obtain rfl := List.eq_nil_of_length_eq_zero hframes
      exact ⟨sock, rfl, hsock, by simp⟩
  | cons hits responses ih =>
      cases frames with
      | nil => simp at hframes
      | cons frame frames =>
          obtain ⟨hhits, hresponses⟩ := List.forall_mem_cons.mp h
          rw [List.flatMap_cons, List.append_assoc] at hsock
          obtain ⟨sock₁, hsearch, hbytes₁, hsent₁⟩ := search_eq frame hhits hsock
          obtain ⟨sock₂, hall, hbytes₂, hsent₂⟩ :=
            ih (by simpa using hframes) hresponses hbytes₁
          refine ⟨sock₂, ?_, hbytes₂, ?_⟩
          · rw [searchAll]
            refine bind_of_eq_ok hsearch ?_
            exact bind_of_eq_ok hall rfl
          · rw [hsent₂, hsent₁, List.flatten_cons, List.append_assoc]

/-- One frame a request, to the last byte, and one response a call, however the
stream was split. -/
theorem wire_client_framing :
    (∀ (query : List UInt32) (k : ℕ), k < 2 ^ 32 → 32 + 4 * query.length < 2 ^ 32 →
      ∃ frame, encodeSearch query k = .ok frame ∧
        decodeRequest frame = some { op := opName, flags := 0, collection := coll, k := k,
                                     dim := query.length, query := query }) ∧
    (∀ (hits : List Hit) (frame rest : Bytes) (sock : Sock), 9 + 12 * hits.length < 2 ^ 32 →
      sock.bytes = response hits ++ rest →
      ∃ sock', search sock frame = .ok (hits.map fun hit => hit.id.toNat, sock') ∧
        sock'.bytes = rest) ∧
    ∀ (responses : List (List Hit)) (frames : List Bytes) (sock : Sock),
      frames.length = responses.length →
      (∀ hits ∈ responses, 9 + 12 * hits.length < 2 ^ 32) →
      sock.bytes = responses.flatMap response →
      ∃ sock', searchAll sock frames =
          .ok (responses.map fun hits => hits.map fun hit => hit.id.toNat, sock') ∧
        sock'.bytes = [] ∧ sock'.sent = sock.sent ++ frames.flatten := by
  refine ⟨?_, ?_, ?_⟩
  · intro query k hk hdim
    exact ⟨_, encodeSearch_eq hk hdim, decodeRequest_frame hk hdim⟩
  · intro hits frame rest sock h hsock
    obtain ⟨sock', hsearch, hbytes, -⟩ := search_eq frame h hsock
    exact ⟨sock', hsearch, hbytes⟩
  · intro responses frames sock hframes h hsock
    exact searchAll_eq hframes h (hsock.trans (List.append_nil _).symm)

/-- Two responses that arrive in three pieces. -/
def threePieces : Sock where
  pieces := [[0, 0, 0], [21, 0, 0, 0, 0, 16, 0, 0, 0, 1, 0, 0, 0, 0, 0, 0, 0, 7, 63],
    [128, 0, 0, 0, 0, 0, 9, 0, 0, 0, 0, 4, 0, 0, 0, 0]]
  nonempty := by decide
  sent := []

theorem wire_client_framing_three_pieces :
    ∃ sock', searchAll threePieces [[1], [2]] = .ok ([[7], []], sock') ∧ sock'.bytes = [] := by
  have hbytes : threePieces.bytes = [[⟨7, 0x3f800000⟩], []].flatMap response := by decide
  obtain ⟨sock', hall, hrest, -⟩ := wire_client_framing.2.2 [[⟨7, 0x3f800000⟩], []] [[1], [2]]
    threePieces rfl (by decide) hbytes
  exact ⟨sock', hall, hrest⟩

end RostamBench.Sift1m.PyClient
