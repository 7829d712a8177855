import RostamBench.Lib.CellProg
import RostamBench.Vectordbbench.Wire

/-!
The client `Rostam`: `__init__`, `insert_embeddings` and `search_embedding`.

A call is a program (`ClientProg`) whose operations are what it shares with other
calls: reads and writes of the four wire flags, and requests. Both kinds of call
start the same way, with a binary request if the wire is enabled, answered by a
reply that may switch the wire off for good (`tryBinary`); what they do with any
other reply, and their JSON request, is their own.

The two wires are tracked separately, so the operations of a call all belong to
one of them (`ClientOp.wire`).
-/

namespace RostamBench.Vectordbbench

open BigEndian Effects

/-- The exceptions of a call. -/
inductive PyErr
  | runtimeError (msg : String)
  /-- `unknown load_path {self.load_path!r}`, with the value and not its `repr`. -/
  | unknownLoadPath (loadPath : String)
  | valueError (msg : String)
  | encode (err : EncodeErr)
  /-- `raise_for_status`. -/
  | httpError (status : ℕ)
  /-- Whatever a request raised. -/
  | requestError (msg : String)
  deriving DecidableEq, Repr

/-! ### Configuration -/

/-- `self.load_path`. -/
inductive LoadPath
  | bulk
  | payload
  | batch
  deriving DecidableEq, Repr

/-- `inline` of `insert_embeddings`: the points are upserted one by one. -/
def LoadPath.inline (p : LoadPath) : Bool := p = .batch

/-- `payload_path`: the points carry payloads. -/
def LoadPath.payloads (p : LoadPath) : Bool := p = .payload || p = .batch

/-- The entries of `db_config` that `__init__` reads, when present. -/
structure DbConfig where
  loadPath : Option String
  binaryWire : Option Bool
  binaryQuery : Option Bool

/-- `db_config.get("load_path") or "bulk"`, and the check of it. -/
def loadPathOf : Option String → Except PyErr LoadPath
  | none | some "" | some "bulk" => .ok .bulk
  | some "payload" => .ok .payload
  | some "batch" => .ok .batch
  | some other => .error (.unknownLoadPath other)

/-- The two binary wires. -/
inductive Wire
  | bulk
  | query
  deriving DecidableEq, Repr

/-- `_binary` and `_binary_proven`, or `_binary_query` and
`_binary_query_proven`. -/
structure WireFlags where
  enabled : Bool
  proven : Bool
  deriving DecidableEq, Repr

/-- The filter, as the JSON branch reads it and as the binary branch does. -/
structure FilterState where
  queryFilter : Option Json.Value
  filterBlob : Bytes

/-- The client's own state. -/
structure Rostam where
  loadPath : LoadPath
  flags : Wire → WireFlags
  filter : FilterState

/-- `__init__`, up to the creation of the collection. -/
def Rostam.init (cfg : DbConfig) : Except PyErr Rostam := do
  let loadPath ← loadPathOf cfg.loadPath
  .ok { loadPath := loadPath
        flags := fun
          | .bulk => { enabled := cfg.binaryWire.getD true, proven := false }
          | .query => { enabled := cfg.binaryQuery.getD true, proven := false }
        filter := { queryFilter := none, filterBlob := [] } }

/-! ### Programs -/

inductive Route
  | pointsBulk
  | pointsBatch
  | pointsSearch
  deriving DecidableEq, Repr

def Route.wire : Route → Wire
  | .pointsBulk | .pointsBatch => .bulk
  | .pointsSearch => .query

inductive Body
  /-- `data=body, headers=_BINARY_HEADERS`. -/
  | octets (b : Bytes)
  /-- `json=body` of an insert. -/
  | points (b : JsonBody)
  /-- `json=body` of a search. -/
  | query (q : JsonQuery)

/-- What a program reads of a response; `hits` is
`[int(h["id"]) for h in r.json().get("results", [])]`. -/
structure Reply where
  status : ℕ
  text : String
  hits : Except PyErr (List ℤ)

inductive ClientOp
  | enabled (w : Wire)
  | proven (w : Wire)
  /-- The wire's `_binary` is set to `False`. -/
  | disable (w : Wire)
  /-- The wire's `_binary_proven` is set to `True`. -/
  | prove (w : Wire)
  | post (route : Route) (body : Body)

/-- A request is answered by a response, or raises. -/
abbrev PostAnswer := Except String Reply

@[reducible]
def ClientOp.Answer : ClientOp → Type
  | .enabled _ | .proven _ => Bool
  | .disable _ | .prove _ => Unit
  | .post _ _ => PostAnswer

def ClientOp.wire : ClientOp → Wire
  | .enabled w | .proven w | .disable w | .prove w => w
  | .post route _ => route.wire

/-- What `insert_embeddings` returns, or `search_embedding` returns or raises. -/
inductive Outcome
  | inserted (count : ℕ) (err : Option PyErr)
  | searched (res : Except PyErr (List ℤ))
  deriving DecidableEq

abbrev ClientProg := Prog ClientOp.Answer Outcome

/-- `_BINARY_UNSUPPORTED`. -/
def binaryUnsupported : List ℕ := [400, 404, 415]

/-- The part the two calls have in common: send the binary body if the wire is
enabled; a rejection before any success switches the wire off and goes on with
`json`, any other reply goes to `answered`. -/
def tryBinary (route : Route) (body : Except EncodeErr Bytes) (raised : PyErr → Outcome)
    (answered : Reply → ClientProg) (json : ClientProg) : ClientProg :=
  .op (.enabled route.wire) fun enabled =>
    if enabled then
      match body with
      | .error err => .ret (raised (.encode err))
      | .ok body =>
          .op (.post route (.octets body)) fun
            | .error msg => .ret (raised (.requestError msg))
            | .ok r =>
                if r.status ∈ binaryUnsupported then
                  .op (.proven route.wire) fun proven =>
                    if proven then answered r else .op (.disable route.wire) fun _ => json
                else answered r
    else json

/-! ### `insert_embeddings` -/

def insertBatch : ℕ := 1000

/-- `range(0, n, INSERT_BATCH)`. -/
def chunkStarts (n : ℕ) : List ℕ :=
  (List.range ((n + (insertBatch - 1)) / insertBatch)).map (· * insertBatch)

def LoadPath.route (p : LoadPath) : Route := if p.inline then .pointsBatch else .pointsBulk

/-- `insert failed @{start}: {r.status_code} {r.text}`. -/
def insertFailed (start : ℕ) (r : Reply) : PyErr :=
  .runtimeError ("insert failed @" ++ toString start ++ ": " ++ toString r.status ++ " " ++ r.text)

/-- `except Exception as e: return 0, e`. -/
def insertRaised (err : PyErr) : Outcome := .inserted 0 (some err)

/-- The arguments of `insert_embeddings`, as `_to_ints` and `_as_f32` make
them. -/
structure InsertCall where
  metadata : List ℤ
  rows : F32Array

/-- A call with the one point `i`. -/
def onePoint (i : ℤ) : InsertCall where
  metadata := [i]
  rows := { dim := 1, rows := [[0x3f800000]], shape := by decide }

/-- `metadata[start:end]`. -/
def InsertCall.ids (c : InsertCall) (start : ℕ) : List ℤ :=
  (c.metadata.drop start).take (min (start + insertBatch) c.metadata.length - start)

/-- `rows[start:end]`. -/
def InsertCall.chunk (c : InsertCall) (start : ℕ) : F32Array :=
  c.rows.slice start (min (start + insertBatch) c.metadata.length)

/-- The JSON request of a chunk, and the chunks after it. -/
def insertJson (p : LoadPath) (c : InsertCall) (start : ℕ) (rest : ClientProg) : ClientProg :=
  .op (.post p.route (.points (jsonBody (c.ids start) (c.chunk start) p.payloads p.inline))) fun
    | .error msg => .ret (insertRaised (.requestError msg))
    | .ok r => if r.status ≠ 200 then .ret (.inserted start (some (insertFailed start r))) else rest

/-- A reply to a binary chunk that is not taken for a missing wire. -/
def insertAnswered (start : ℕ) (rest : ClientProg) (r : Reply) : ClientProg :=
  if r.status ≠ 200 then .ret (.inserted start (some (insertFailed start r)))
  else .op (.prove .bulk) fun _ => rest

/-- The loop over the chunks. -/
def insertFrom (p : LoadPath) (c : InsertCall) : List ℕ → ClientProg
  | [] => .ret (.inserted c.metadata.length none)
  | start :: starts =>
      tryBinary p.route (binaryBody (c.ids start) (c.chunk start) p.inline p.payloads)
        insertRaised (insertAnswered start (insertFrom p c starts))
        (insertJson p c start (insertFrom p c starts))

/-- `insert_embeddings`. -/
def insertEmbeddings (p : LoadPath) (c : InsertCall) : ClientProg :=
  insertFrom p c (chunkStarts c.metadata.length)

/-! ### `search_embedding` -/

/-- `r.raise_for_status()`. -/
def raiseForStatus (r : Reply) : Except PyErr Unit :=
  if 400 ≤ r.status ∧ r.status < 600 then .error (.httpError r.status) else .ok ()

def searchRaised (err : PyErr) : Outcome := .searched (.error err)

/-- A reply to a binary query that is not taken for a missing wire. -/
def searchAnswered (r : Reply) : ClientProg :=
  match raiseForStatus r with
  | .error err => .ret (searchRaised err)
  | .ok () => .op (.prove .query) fun _ => .ret (.searched r.hits)

/-- The body of the JSON query. -/
def jsonQuery (f : FilterState) (query : List UInt32) (k : ℤ) : JsonQuery where
  query := query
  k := k
  filter := f.queryFilter

def searchJson (f : FilterState) (query : List UInt32) (k : ℤ) : ClientProg :=
  .op (.post .pointsSearch (.query (jsonQuery f query k))) fun
    | .error msg => .ret (searchRaised (.requestError msg))
    | .ok r =>
        match raiseForStatus r with
        | .error err => .ret (searchRaised err)
        | .ok () => .ret (.searched r.hits)

/-- `search_embedding`. -/
def searchEmbedding (f : FilterState) (query : List UInt32) (k : ℤ) : ClientProg :=
  tryBinary .pointsSearch (queryBody query k f.filterBlob) searchRaised searchAnswered
    (searchJson f query k)

end RostamBench.Vectordbbench
