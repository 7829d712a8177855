import RostamBench.Vectordbbench.Load

/-!
A whole load: `__init__` creates the collection, any number of `insert_embeddings`
calls send the points, and `optimize` builds the index.

The server is not part of this repository. What the client relies on is what its
comments say of the routes, and that is all that is assumed of a server (`Lawful`): a
200 stages or upserts the points of the body, a rejected framing applies nothing, a
created collection is empty, and a build indexes what has been staged. What it does
when it answers anything else is left open.

"All three end in the same index" is then a theorem: whichever load path the client is
configured with, and however its calls interleave and fall back, the index has exactly
the points of the calls. A chunk applied twice would be noticed here, since a build is
only asked to index points whose ids are distinct.
-/

namespace RostamBench.Vectordbbench

open BigEndian Effects Transition

/-! ### The requests of `__init__` and `optimize` -/

inductive MetricType
  | l2
  | ip
  /-- The other members of the enumeration. -/
  | other (name : String)
  deriving DecidableEq, Repr

/-- `RostamHNSWConfig`. -/
structure HnswConfig where
  metricType : Option MetricType := none
  m : ℤ := 16
  efConstruction : ℤ := 200
  efSearch : ℤ := 64
  quant : String := ""

/-- `parse_metric`. -/
def HnswConfig.parseMetric (cfg : HnswConfig) : String :=
  if cfg.metricType = some .l2 then "l2"
  else if cfg.metricType = some .ip then "dot"
  else "cosine"

/-- The body of the create request; `quant` is absent when it is empty. -/
structure CreateBody where
  name : String
  dim : ℕ
  metric : String
  m : ℤ
  efConstruction : ℤ
  efSearch : ℤ
  quant : Option String
  deriving DecidableEq, Repr

inductive AdminOp
  /-- `DELETE /v1/collections/{c}`. -/
  | delete (name : String)
  /-- `POST /v1/collections`. -/
  | create (body : CreateBody)
  /-- `POST /v1/collections/{c}/points/bulk/build`. -/
  | build (name : String)

@[reducible]
def AdminOp.Answer : AdminOp → Type := fun _ => PostAnswer

abbrev AdminProg := Prog AdminOp.Answer

/-- What `__init__` raises. -/
inductive InitErr
  | py (err : PyErr)
  | alreadyExists
  deriving DecidableEq, Repr

/-- `"exist" in text.lower()`. No character outside ASCII has a lower case with a letter
of `exist` next to another one. -/
def saysExist (text : String) : Bool :=
  decide ("exist".toList <:+: text.toList.map Char.toLower)

/-- `create collection failed: {r.status_code} {r.text}`. -/
def createFailed (r : Reply) : PyErr :=
  .runtimeError ("create collection failed: " ++ toString r.status ++ " " ++ r.text)

def createBody (name : String) (dim : ℕ) (cfg : HnswConfig) : CreateBody where
  name := name
  dim := dim
  metric := cfg.parseMetric
  m := cfg.m
  efConstruction := cfg.efConstruction
  efSearch := cfg.efSearch
  quant := if cfg.quant = "" then none else some cfg.quant

/-- `_create`. -/
def create (body : CreateBody) : AdminProg (Except InitErr Unit) :=
  .op (.create body) fun
    | .error msg => .ret (.error (.py (.requestError msg)))
    | .ok r =>
        if r.status ∈ [200, 201] then .ret (.ok ())
        else if r.status = 409 ∨ saysExist r.text then .ret (.error .alreadyExists)
        else .ret (.error (.py (createFailed r)))

/-- The creation, and what becomes of a collection that is there already. -/
def createOrReuse (body : CreateBody) (dropOld : Bool) : AdminProg (Except InitErr Unit) :=
  (create body).bind fun
    | .error .alreadyExists => .ret (if dropOld then .error .alreadyExists else .ok ())
    | res => .ret res

/-- The requests of `__init__`. The answer to the delete is not looked at. -/
def openCollection (body : CreateBody) (dropOld : Bool) : AdminProg (Except InitErr Unit) :=
  if dropOld then
    .op (.delete body.name) fun
      | .error msg => .ret (.error (.py (.requestError msg)))
      | .ok _ => createOrReuse body dropOld
  else createOrReuse body dropOld

/-- `__init__`. -/
def Rostam.make (db : DbConfig) (cfg : HnswConfig) (dim : ℕ) (name : String) (dropOld : Bool) :
    AdminProg (Except InitErr Rostam) :=
  match Rostam.init db with
  | .error err => .ret (.error (.py err))
  | .ok client =>
      (openCollection (createBody name dim cfg) dropOld).bind fun
        | .error err => .ret (.error err)
        | .ok () => .ret (.ok client)

/-- `bulk build failed: {r.status_code} {r.text}`. -/
def buildFailed (r : Reply) : PyErr :=
  .runtimeError ("bulk build failed: " ++ toString r.status ++ " " ++ r.text)

/-- `optimize`. -/
def optimize (p : LoadPath) (name : String) : AdminProg (Except PyErr Unit) :=
  if p = .batch then .ret (.ok ())
  else
    .op (.build name) fun
      | .error msg => .ret (.error (.requestError msg))
      | .ok r => if r.status ≠ 200 then .ret (.error (buildFailed r)) else .ret (.ok ())

/-! ### The server -/

/-- The body asks for an upsert. -/
def Body.upserts : Body → Bool
  | .octets b => ((decodeBulk b).map BulkRequest.upsert).getD false
  | .points b => b.request.upsert
  | .query _ => false

/-- A server with states `σ`: what it has staged, what it has indexed under which id,
and how it takes a request. Its answers may depend on more than the requests, which is
what `ε` is for. -/
structure Server (σ ε : Type*) where
  staged : σ → Multiset Point
  index : σ → ℤ → Option Point
  post : ε → Route → Body → σ → σ × PostAnswer
  admin : ε → AdminOp → σ → σ × PostAnswer

/-- The index has a point of `ps` under each of their ids, and nothing else. -/
def Indexes (index : ℤ → Option Point) (ps : Multiset Point) : Prop :=
  ∀ x, (∀ q, index x = some q → q ∈ ps ∧ q.id = x) ∧ ((∃ q ∈ ps, q.id = x) → index x ≠ none)

variable {σ ε : Type*}

/-- What the client's comments say of the server. -/
structure Server.Lawful (srv : Server σ ε) : Prop where
  /-- "stage". -/
  stages : ∀ e body s r, (srv.post e .pointsBulk body s).2 = .ok r → r.status = 200 →
    body.upserts = false →
    srv.staged (srv.post e .pointsBulk body s).1 = srv.staged s + (body.carries : Multiset Point) ∧
      srv.index (srv.post e .pointsBulk body s).1 = srv.index s
  /-- "upsert each point through /points/batch, indexed inline". -/
  upserts : ∀ e body s r, (srv.post e .pointsBatch body s).2 = .ok r → r.status = 200 →
    body.upserts = true →
    ∀ x, ((∀ q ∈ body.carries, q.id ≠ x) →
        srv.index (srv.post e .pointsBatch body s).1 x = srv.index s x) ∧
      ((∃ q ∈ body.carries, q.id = x) →
        ∃ q ∈ body.carries, q.id = x ∧ srv.index (srv.post e .pointsBatch body s).1 x = some q)
  /-- "All three apply nothing". -/
  rejects : ∀ e route body s r, (srv.post e route body s).2 = .ok r →
    r.status ∈ binaryUnsupported →
    srv.staged (srv.post e route body s).1 = srv.staged s ∧
      srv.index (srv.post e route body s).1 = srv.index s
  /-- A new collection. -/
  creates : ∀ e body s r, (srv.admin e (.create body) s).2 = .ok r → r.status ∈ [200, 201] →
    srv.staged (srv.admin e (.create body) s).1 = 0 ∧
      srv.index (srv.admin e (.create body) s).1 = fun _ => none
  /-- "Build the HNSW index over everything staged so far"; "the build endpoint requires
  an empty index". -/
  builds : ∀ e name s r, (srv.admin e (.build name) s).2 = .ok r → r.status = 200 →
    srv.index s = (fun _ => none) → ((srv.staged s).map Point.id).Nodup →
    Indexes (srv.index (srv.admin e (.build name) s).1) (srv.staged s)

/-- The flags of the client and the server, as the calls share them. -/
def Server.act (srv : Server σ ε) (e : ε) : Act ((Wire → WireFlags) × σ) ClientOp.Answer
  | .enabled w, s => (s, (s.1 w).enabled)
  | .proven w, s => (s, (s.1 w).proven)
  | .disable w, s => ((Function.update s.1 w { s.1 w with enabled := false }, s.2), ())
  | .prove w, s => ((Function.update s.1 w { s.1 w with proven := true }, s.2), ())
  | .post route body, s =>
      ((s.1, (srv.post e route body s.2).1), (srv.post e route body s.2).2)

/-- Any number of inserts on one client, from the server state `s₁` and any setting of
the flags. -/
def Server.load {ι : Type*} [DecidableEq ι] (srv : Server σ ε) (p : LoadPath)
    (calls : ι → InsertCall) (s₁ : σ) :
    System (Interleave.State ((Wire → WireFlags) × σ) ι ClientOp.Answer Outcome) (ι × ε) :=
  Interleave.system srv.act (fun s => s.2 = s₁) fun i => insertEmbeddings p (calls i)

instance {ι : Type*} [DecidableEq ι] (srv : Server σ ε) (p : LoadPath) (calls : ι → InsertCall)
    (s₁ : σ) (s : Interleave.State ((Wire → WireFlags) × σ) ι ClientOp.Answer Outcome)
    (a : ι × ε) : Decidable ((srv.load p calls s₁).enabled s a) :=
  inferInstanceAs (Decidable ((Interleave.system srv.act (fun s => s.2 = s₁) fun i =>
    insertEmbeddings p (calls i)).enabled s a))

/-! ### What a call without an error has been answered -/

/-- A request on the load path's route that was applied or rejected as a framing. -/
def Settled (p : LoadPath) : Event ClientOp.Answer → Prop
  | ⟨.post route body, .ok r⟩ =>
      route = p.route ∧ body.upserts = p.inline ∧ (r.status = 200 ∨ r.status ∈ binaryUnsupported)
  | ⟨.post _ _, .error _⟩ => False
  | ⟨.enabled _, _⟩ | ⟨.proven _, _⟩ | ⟨.disable _, _⟩ | ⟨.prove _, _⟩ => True

/-- A call that returns no error has seen settled requests only. -/
def SettledUnlessFailed (p : LoadPath) (tr : List (Event ClientOp.Answer)) : Outcome → Prop
  | .inserted _ none => ∀ ev ∈ tr, Settled p ev
  | .inserted _ (some _) | .searched _ => True

section Settled

variable {p : LoadPath} {c : InsertCall} {past : List (Event ClientOp.Answer)}

theorem settled_append {ev : Event ClientOp.Answer} (hpast : ∀ ev ∈ past, Settled p ev)
    (hev : Settled p ev) : ∀ ev' ∈ past ++ [ev], Settled p ev' := by
  intro ev' hev'
  rcases List.mem_append.mp hev' with h | h
  · exact hpast ev' h
  · rw [List.mem_singleton.mp h]
    exact hev

theorem upserts_binaryBody {start : ℕ} {b : Bytes}
    (hlen : c.metadata.length = c.rows.rows.length)
    (hb : binaryBody (c.ids start) (c.chunk start) p.inline p.payloads = .ok b) :
    (Body.octets b).upserts = p.inline := by
  rw [Body.upserts, decodeBulk_of_ok (length_chunk hlen _) hb]
  cases p <;> rfl

theorem upserts_jsonBody (start : ℕ) :
    (Body.points (jsonBody (c.ids start) (c.chunk start) p.payloads p.inline)).upserts =
      p.inline := by
  cases p <;> rfl

theorem settled_insertJson {start : ℕ} {rest : ClientProg} (hpast : ∀ ev ∈ past, Settled p ev)
    (hrest : ∀ tr, (∀ ev ∈ tr, Settled p ev) → rest.Ensures (SettledUnlessFailed p) tr) :
    (insertJson p c start rest).Ensures (SettledUnlessFailed p) past := by
  rw [insertJson]
  rintro (msg | r)
  · trivial
  · by_cases hstatus : r.status = 200
    · simp only [hstatus, ne_eq, not_true_eq_false, if_false]
      exact hrest _ (settled_append hpast ⟨rfl, upserts_jsonBody start, Or.inl hstatus⟩)
    · simp only [ne_eq, hstatus, not_false_eq_true, if_true]
      trivial

theorem settled_insertAnswered {start : ℕ} {rest : ClientProg} {r : Reply}
    (hpast : r.status = 200 → ∀ ev ∈ past, Settled p ev)
    (hrest : ∀ tr, (∀ ev ∈ tr, Settled p ev) → rest.Ensures (SettledUnlessFailed p) tr) :
    (insertAnswered start rest r).Ensures (SettledUnlessFailed p) past := by
  rw [insertAnswered]
  by_cases hstatus : r.status = 200
  · simp only [hstatus, ne_eq, not_true_eq_false, if_false]
    intro _
    exact hrest _ (settled_append (hpast hstatus) trivial)
  · simp only [ne_eq, hstatus, not_false_eq_true, if_true]
    trivial

theorem settled_insertFrom (hlen : c.metadata.length = c.rows.rows.length) (starts : List ℕ)
    (hpast : ∀ ev ∈ past, Settled p ev) :
    (insertFrom p c starts).Ensures (SettledUnlessFailed p) past := by
  induction starts generalizing past with
  | nil => exact hpast
  | cons start starts ih =>
      rw [insertFrom]
      unfold tryBinary
      rintro (_ | _)
      · exact settled_insertJson (settled_append hpast trivial) fun tr htr => ih htr
      · cases hb : binaryBody (c.ids start) (c.chunk start) p.inline p.payloads with
        | error err => trivial
        | ok b =>
            have hupserts := upserts_binaryBody hlen hb
            rintro (msg | r)
            · trivial
            · by_cases hstatus : r.status ∈ binaryUnsupported
              · simp only [if_pos hstatus]
                have henabled : Settled p ⟨.enabled p.route.wire, true⟩ := trivial
                have hpost : Settled p ⟨.post p.route (.octets b), .ok r⟩ :=
                  ⟨rfl, hupserts, Or.inr hstatus⟩
                have hsent := settled_append (settled_append hpast henabled) hpost
                rintro (_ | _)
                · intro _
                  exact settled_insertJson (settled_append (settled_append hsent trivial) trivial)
                    fun tr htr => ih htr
                · exact settled_insertAnswered (fun _ => settled_append hsent trivial)
                    fun tr htr => ih htr
              · simp only [if_neg hstatus]
                refine settled_insertAnswered (fun hok => ?_) fun tr htr => ih htr
                exact settled_append (settled_append hpast trivial) ⟨rfl, hupserts, Or.inl hok⟩

end Settled

/-! ### What the server has -/

/-- The points `ps` have arrived: they are staged, or indexed where the load is
inline. -/
def Server.Has (srv : Server σ ε) (p : LoadPath) (s : σ) (ps : Multiset Point) : Prop :=
  if p.inline then Indexes (srv.index s) ps
  else srv.staged s = ps ∧ srv.index s = fun _ => none

theorem indexes_empty : Indexes (fun _ => none) 0 := by
  intro x
  constructor
  · intro q hq
    cases hq
  · rintro ⟨q, hq, _⟩
    exact absurd hq (Multiset.notMem_zero q)

theorem Indexes.add {index index' : ℤ → Option Point} {ps : Multiset Point} {new : List Point}
    (h : Indexes index ps)
    (hnew : ∀ x, ((∀ q ∈ new, q.id ≠ x) → index' x = index x) ∧
      ((∃ q ∈ new, q.id = x) → ∃ q ∈ new, q.id = x ∧ index' x = some q)) :
    Indexes index' (ps + (new : Multiset Point)) := by
  intro x
  obtain ⟨hold, hput⟩ := hnew x
  obtain ⟨hfrom, hthere⟩ := h x
  by_cases hx : ∃ q ∈ new, q.id = x
  · obtain ⟨q, hq, hqx, hindex⟩ := hput hx
    constructor
    · intro q' hq'
      obtain rfl : q = q' := Option.some.inj (hindex.symm.trans hq')
      exact ⟨Multiset.mem_add.mpr (Or.inr hq), hqx⟩
    · intro _
      simp [hindex]
  · have hkept : index' x = index x := hold fun q hq hqx => hx ⟨q, hq, hqx⟩
    rw [hkept]
    constructor
    · intro q hq
      obtain ⟨hmem, hqx⟩ := hfrom q hq
      exact ⟨Multiset.mem_add.mpr (Or.inl hmem), hqx⟩
    · rintro ⟨q, hq, hqx⟩
      rcases Multiset.mem_add.mp hq with hq | hq
      · exact hthere ⟨q, hq, hqx⟩
      · exact absurd ⟨q, hq, hqx⟩ hx

/-- With distinct ids the index is determined. -/
theorem Indexes.iff {index : ℤ → Option Point} {ps : Multiset Point} (h : Indexes index ps)
    (hids : (ps.map Point.id).Nodup) (x : ℤ) (q : Point) :
    index x = some q ↔ q ∈ ps ∧ q.id = x := by
  constructor
  · exact (h x).1 q
  · rintro ⟨hq, hqx⟩
    obtain ⟨q', hq'⟩ := Option.ne_none_iff_exists'.mp ((h x).2 ⟨q, hq, hqx⟩)
    obtain ⟨hmem, hqx'⟩ := (h x).1 q' hq'
    rw [hq', Multiset.inj_on_of_nodup_map hids q' hmem q hq (hqx'.trans hqx.symm)]

section Lawful

variable {srv : Server σ ε}

/-- A settled request adds the points it applied. -/
theorem Server.Lawful.has_post (hsrv : srv.Lawful) {p : LoadPath} {e : ε} {route : Route}
    {body : Body} {s : σ} {ps : Multiset Point}
    (hev : Settled p ⟨.post route body, (srv.post e route body s).2⟩) (h : srv.Has p s ps) :
    srv.Has p (srv.post e route body s).1
      (ps + (appliedBy ⟨.post route body, (srv.post e route body s).2⟩ : Multiset Point)) := by
  cases hans : (srv.post e route body s).2 with
  | error msg =>
      rw [hans] at hev
      exact hev.elim
  | ok r =>
      rw [hans] at hev
      obtain ⟨rfl, hupserts, hstatus⟩ := hev
      rcases hstatus with hok | hrejected
      · simp only [appliedBy, if_pos hok]
        cases hp : p.inline with
        | true =>
            have hroute : p.route = .pointsBatch := by simp [LoadPath.route, hp]
            rw [hroute] at hans ⊢
            rw [Server.Has, hp] at h ⊢
            exact Indexes.add h (hsrv.upserts e body s r hans hok (hupserts.trans hp))
        | false =>
            have hroute : p.route = .pointsBulk := by simp [LoadPath.route, hp]
            rw [hroute] at hans ⊢
            rw [Server.Has, hp] at h ⊢
            obtain ⟨hstaged, hindex⟩ := hsrv.stages e body s r hans hok (hupserts.trans hp)
            obtain ⟨rfl, hempty⟩ := h
            exact ⟨hstaged, hindex.trans hempty⟩
      · have hne : r.status ≠ 200 := by
          intro h
          rw [h] at hrejected
          exact absurd hrejected (by decide)
        obtain ⟨hstaged, hindex⟩ := hsrv.rejects e p.route body s r hans hrejected
        simp only [appliedBy, if_neg hne, Multiset.coe_nil, add_zero]
        rw [Server.Has] at h ⊢
        rwa [hstaged, hindex]

theorem Server.Lawful.has_act (hsrv : srv.Lawful) {p : LoadPath} {e : ε} {o : ClientOp}
    {s : (Wire → WireFlags) × σ} {ps : Multiset Point}
    (hev : Settled p ⟨o, (srv.act e o s).2⟩) (h : srv.Has p s.2 ps) :
    srv.Has p (srv.act e o s).1.2 (ps + (appliedBy ⟨o, (srv.act e o s).2⟩ : Multiset Point)) := by
  cases o with
  | post route body => exact hsrv.has_post hev h
  | enabled w | proven w | disable w | prove w => simpa [appliedBy, Server.act] using h

theorem total_applied (tr : List (Event ClientOp.Answer)) :
    Interleave.total (fun ev => (appliedBy ev : Multiset Point)) tr = applied tr := by
  induction tr with
  | nil => rfl
  | cons ev tr ih =>
      rw [Interleave.total] at ih ⊢
      rw [List.map_cons, List.sum_cons, ih, applied, applied, List.flatMap_cons,
        ← Multiset.coe_add]

theorem Server.Lawful.has_createOrReuse (hsrv : srv.Lawful) (p : LoadPath) {body : CreateBody}
    {e : ε} {s s₁ : σ}
    (h : (createOrReuse body true).run (srv.admin e) s = (s₁, .ok ())) : srv.Has p s₁ 0 := by
  rw [createOrReuse, Prog.run_bind] at h
  simp only [create, Prog.run] at h
  cases hans : (srv.admin e (.create body) s).2 with
  | error msg => simp [hans, Prog.run] at h
  | ok r =>
      rw [hans] at h
      by_cases hcreated : r.status ∈ [200, 201]
      · obtain ⟨hstaged, hindex⟩ := hsrv.creates e body s r hans hcreated
        simp only [if_pos hcreated, Prog.run, Prod.mk.injEq, and_true] at h
        rw [← h, Server.Has]
        split
        · rw [hindex]
          exact indexes_empty
        · exact ⟨hstaged, hindex⟩
      · simp only [if_neg hcreated] at h
        by_cases hexists : r.status = 409 ∨ saysExist r.text = true
        · simp [hexists, Prog.run] at h
        · simp [hexists, Prog.run] at h

/-- After `__init__` with `drop_old` the collection is empty. -/
theorem Server.Lawful.has_make (hsrv : srv.Lawful) {db : DbConfig} {cfg : HnswConfig} {dim : ℕ}
    {name : String} {client : Rostam} {e : ε} {s₀ s₁ : σ}
    (h : (Rostam.make db cfg dim name true).run (srv.admin e) s₀ = (s₁, .ok client)) :
    srv.Has client.loadPath s₁ 0 := by
  rw [Rostam.make] at h
  cases hinit : Rostam.init db with
  | error err => simp [hinit, Prog.run] at h
  | ok made =>
      rw [hinit] at h
      simp only [Prog.run_bind, openCollection, if_true, Prog.run] at h
      cases hans : (srv.admin e (.delete (createBody name dim cfg).name) s₀).2 with
      | error msg => simp [hans, Prog.run] at h
      | ok r =>
          simp only [hans] at h
          generalize hcreated : (createOrReuse (createBody name dim cfg) true).run (srv.admin e)
            (srv.admin e (.delete (createBody name dim cfg).name) s₀).1 = created at h
          obtain ⟨s, res⟩ := created
          cases res with
          | error err => simp [Prog.run] at h
          | ok u =>
              obtain ⟨rfl, -⟩ : s = s₁ ∧ _ := by simpa [Prog.run] using h
              exact hsrv.has_createOrReuse _ hcreated

/-- When `optimize` returns, what has arrived is indexed. -/
theorem Server.Lawful.indexes_optimize (hsrv : srv.Lawful) {p : LoadPath} {name : String} {e : ε}
    {s s₂ : σ} {ps : Multiset Point} (hs : srv.Has p s ps) (hids : (ps.map Point.id).Nodup)
    (h : (optimize p name).run (srv.admin e) s = (s₂, .ok ())) : Indexes (srv.index s₂) ps := by
  rw [optimize] at h
  by_cases hp : p = .batch
  · rw [if_pos hp] at h
    obtain rfl : s = s₂ := by simpa [Prog.run] using h
    simpa [Server.Has, LoadPath.inline, hp] using hs
  · obtain ⟨rfl, hempty⟩ : srv.staged s = ps ∧ srv.index s = fun _ => none := by
      simpa [Server.Has, LoadPath.inline, hp] using hs
    rw [if_neg hp] at h
    simp only [Prog.run] at h
    cases hans : (srv.admin e (.build name) s).2 with
    | error msg => simp [hans, Prog.run] at h
    | ok r =>
        rw [hans] at h
        by_cases hstatus : r.status = 200
        · simp only [hstatus, ne_eq, not_true_eq_false, if_false, Prog.run, Prod.mk.injEq,
            and_true] at h
          rw [← h]
          exact hsrv.builds e name s r hans hstatus hempty hids
        · simp [hstatus, Prog.run] at h

/-- What an interleaving of calls has brought when none of them failed. -/
theorem Server.Lawful.has_of_load (hsrv : srv.Lawful) {ι : Type*} [Fintype ι] [DecidableEq ι]
    {p : LoadPath} {calls : ι → InsertCall}
    (hlen : ∀ i, (calls i).metadata.length = (calls i).rows.rows.length) {s₁ : σ}
    (hs₁ : srv.Has p s₁ 0)
    {st : Interleave.State ((Wire → WireFlags) × σ) ι ClientOp.Answer Outcome}
    (hst : (srv.load p calls s₁).Reachable st)
    (hdone : ∀ i, ∃ count, st.prog i = .ret (.inserted count none)) :
    srv.Has p st.shared.2 (∑ i, ((calls i).points p : Multiset Point)) := by
  have hsettled : ∀ i, ∀ ev ∈ st.trace i, Settled p ev := by
    intro i
    have h := Interleave.ensures_of_reachable (Q := fun _ => SettledUnlessFailed p)
      (fun i => settled_insertFrom (hlen i) _ (by simp)) hst i
    obtain ⟨count, hret⟩ := hdone i
    rw [hret] at h
    exact h
  have happlied : ∀ i, applied (st.trace i) = (calls i).points p := by
    intro i
    have h := Interleave.ensures_of_reachable
      (fun i => ensures_insertEmbeddings p (hlen i)) hst i
    obtain ⟨count, hret⟩ := hdone i
    rw [hret] at h
    exact h.2
  have hstart : ∀ s : (Wire → WireFlags) × σ, s.2 = s₁ → srv.Has p s.2 0 := by
    intro s hs
    rwa [hs]
  have h := Interleave.ledger_of_reachable (fun ev => (appliedBy ev : Multiset Point))
    (Settled p) (fun s => srv.Has p s.2) hstart (fun e o s ps => hsrv.has_act) hst hsettled
  simpa only [total_applied, happlied] using h

end Lawful

/-! ### The whole load -/

/-- The server has been loaded: the collection was created with `drop_old`, the calls ran
in some order with each other and returned no error, and `optimize` returned. -/
def Server.Loaded {ι : Type*} [DecidableEq ι] (srv : Server σ ε) (client : Rostam)
    (calls : ι → InsertCall) (s₂ : σ) : Prop :=
  ∃ db cfg dim name s₀ s₁ e₁ e₂ st,
    (Rostam.make db cfg dim name true).run (srv.admin e₁) s₀ = (s₁, .ok client) ∧
    (srv.load client.loadPath calls s₁).Reachable st ∧
    (∀ i, ∃ count, st.prog i = .ret (.inserted count none)) ∧
    (optimize client.loadPath name).run (srv.admin e₂) st.shared.2 = (s₂, .ok ())

/-- The point of an id and its vector, on a load path. -/
def LoadPath.point (p : LoadPath) (x : ℤ) (v : List UInt32) : Point where
  id := x
  vector := v
  metadata := if p.payloads then some (idMetadata x) else none

theorem mem_points {p : LoadPath} {c : InsertCall} {q : Point} :
    q ∈ c.points p ↔ ∃ x v, (x, v) ∈ c.metadata.zip c.rows.rows ∧ q = p.point x v := by
  rw [InsertCall.points, jsonBody, List.mem_map]
  constructor
  · rintro ⟨⟨x, v⟩, hmem, rfl⟩
    exact ⟨x, v, hmem, rfl⟩
  · rintro ⟨x, v, hmem, rfl⟩
    exact ⟨(x, v), hmem, rfl⟩

theorem map_id_points {p : LoadPath} {c : InsertCall}
    (hlen : c.metadata.length = c.rows.rows.length) :
    (c.points p).map Point.id = c.metadata := by
  rw [InsertCall.points, jsonBody, List.map_map]
  exact List.map_fst_zip hlen.le

/-- Every load of vectors with ids of their own, one for each vector, ends in the same index,
whatever the load path, the order in which the calls take turns, and the answers that made
them fall back: the points of the calls, each under its id. The load path shows in the
payloads only. -/
theorem load_ends_in_the_same_index {srv : Server σ ε} (hsrv : srv.Lawful) {ι : Type*}
    [Fintype ι] [DecidableEq ι] {client : Rostam} {calls : ι → InsertCall}
    (hlen : ∀ i, (calls i).metadata.length = (calls i).rows.rows.length)
    (hids : (∑ i, ((calls i).metadata : Multiset ℤ)).Nodup) {s₂ : σ}
    (hload : srv.Loaded client calls s₂) (x : ℤ) (q : Point) :
    srv.index s₂ x = some q ↔
      ∃ i v, (x, v) ∈ (calls i).metadata.zip (calls i).rows.rows ∧
        q = client.loadPath.point x v := by
  obtain ⟨db, cfg, dim, name, s₀, s₁, e₁, e₂, st, hmake, hst, hdone, hopt⟩ := hload
  have hhas := hsrv.has_of_load hlen (hsrv.has_make hmake) hst hdone
  have hnodup : ((∑ i, ((calls i).points client.loadPath : Multiset Point)).map
      Point.id).Nodup := by
    have hmap := map_sum (Multiset.mapAddMonoidHom Point.id)
      (fun i => ((calls i).points client.loadPath : Multiset Point)) Finset.univ
    simp only [Multiset.coe_mapAddMonoidHom, Multiset.map_coe, map_id_points (hlen _)] at hmap
    rwa [hmap]
  rw [(hsrv.indexes_optimize hhas hnodup hopt).iff hnodup, Multiset.mem_sum]
  constructor
  · rintro ⟨⟨i, -, hq⟩, hqx⟩
    obtain ⟨y, v, hmem, rfl⟩ := mem_points.mp hq
    obtain rfl : y = x := hqx
    exact ⟨i, v, hmem, rfl⟩
  · rintro ⟨i, v, hmem, rfl⟩
    exact ⟨⟨i, Finset.mem_univ i, mem_points.mpr ⟨x, v, hmem, rfl⟩⟩, rfl⟩

/-- A server in memory, which answers with the status it is told to. -/
structure Memory where
  staged : List Point
  indexed : List Point

def memoryServer : Server Memory ℕ where
  staged s := s.staged
  index s x := s.indexed.find? fun q => q.id = x
  post status route body s :=
    (if status = 200 then
      match route with
      | .pointsBulk => { s with staged := s.staged ++ body.carries }
      | .pointsBatch => { s with indexed := body.carries ++ s.indexed }
      | .pointsSearch => s
    else s, .ok { status := status, text := "", hits := .ok [] })
  admin status op s :=
    (match op with
      | .delete _ | .create _ => { staged := [], indexed := [] }
      | .build _ => { s with indexed := s.staged },
      .ok { status := status, text := "", hits := .ok [] })

theorem memoryServer_lawful : memoryServer.Lawful where
  stages status body s r hans hstatus _ := by
    obtain rfl : status = r.status := by cases hans; rfl
    simp [memoryServer, hstatus]
  upserts status body s r hans hstatus _ x := by
    obtain rfl : status = r.status := by cases hans; rfl
    simp only [memoryServer, hstatus, if_true, List.find?_append]
    constructor
    · intro hnone
      have hfind : body.carries.find? (fun q => decide (q.id = x)) = none := by
        simpa [List.find?_eq_none] using hnone
      simp [hfind]
    · rintro ⟨q, hq, hqx⟩
      obtain ⟨q', hq'⟩ : ∃ q', body.carries.find? (fun q => decide (q.id = x)) = some q' := by
        rw [← Option.isSome_iff_exists, List.find?_isSome]
        exact ⟨q, hq, by simpa using hqx⟩
      exact ⟨q', List.mem_of_find?_eq_some hq', by simpa using List.find?_some hq', by simp [hq']⟩
  rejects status route body s r hans hstatus := by
    obtain rfl : status = r.status := by cases hans; rfl
    have hne : r.status ≠ 200 := by
      intro h
      rw [h] at hstatus
      exact absurd hstatus (by decide)
    simp [memoryServer, hne]
  creates status body s r _ _ := ⟨rfl, rfl⟩
  builds status name s r _ _ _ _ := by
    intro x
    constructor
    · intro q hq
      exact ⟨List.mem_of_find?_eq_some hq, by simpa using List.find?_some hq⟩
    · rintro ⟨q, hq, hqx⟩ hnone
      rw [memoryServer, List.find?_eq_none] at hnone
      exact hnone q hq (by simpa using hqx)

/-- One of two calls has its binary chunk rejected and falls back after the other's was
taken. -/
def fallBackStatuses : List (Bool × ℕ) :=
  [(false, 0), (true, 0), (false, 400), (false, 0), (true, 200), (true, 0), (false, 0), (false, 200)]

theorem load_ends_in_the_same_index_two_calls :
    ∃ client s₂, memoryServer.Loaded client (fun i : Bool => onePoint (if i then 7 else 3)) s₂ ∧
      client.loadPath = .payload ∧
      memoryServer.index s₂ 7 = some (LoadPath.payload.point 7 [0x3f800000]) := by
  obtain ⟨client, hclient⟩ : ∃ client,
      Rostam.init { loadPath := some "payload", binaryWire := none, binaryQuery := none } =
        .ok client := ⟨_, rfl⟩
  have hpath : client.loadPath = .payload := by
    cases hclient
    rfl
  have hreplay : ((memoryServer.load .payload (fun i : Bool => onePoint (if i then 7 else 3))
      { staged := [], indexed := [] }).replay
      { shared := (fun _ => { enabled := true, proven := false }, { staged := [], indexed := [] })
        prog := fun i => insertEmbeddings .payload (onePoint (if i then 7 else 3))
        trace := fun _ => [] } fallBackStatuses).map
          (fun s => ((s.prog false).result, (s.prog true).result)) =
      some (some (.inserted 1 none), some (.inserted 1 none)) := by decide +kernel
  obtain ⟨st, hrun, hresult⟩ := System.run_of_replay hreplay ⟨rfl, rfl, rfl⟩
  obtain ⟨hfalse, htrue⟩ := Prod.mk.inj hresult
  have hdone : ∀ i : Bool, ∃ count, st.prog i = .ret (.inserted count none) := by
    rintro (_ | _)
    · exact ⟨1, Prog.eq_ret_of_result hfalse⟩
    · exact ⟨1, Prog.eq_ret_of_result htrue⟩
  have hloaded : memoryServer.Loaded client (fun i : Bool => onePoint (if i then 7 else 3))
      { st.shared.2 with indexed := st.shared.2.staged } := by
    refine ⟨{ loadPath := some "payload", binaryWire := none, binaryQuery := none }, {}, 1, "c",
      { staged := [], indexed := [] }, { staged := [], indexed := [] }, 200, 200, st, ?_, ?_, hdone, ?_⟩
    · rw [Rostam.make, hclient]
      rfl
    · rw [hpath]
      exact hrun.reachable
    · rw [hpath]
      rfl
  refine ⟨client, _, hloaded, hpath, ?_⟩
  have h := load_ends_in_the_same_index memoryServer_lawful (fun i => rfl) (by decide) hloaded 7
    (client.loadPath.point 7 [0x3f800000])
  rw [hpath] at h
  exact h.mpr ⟨true, [0x3f800000], by decide, rfl⟩

end RostamBench.Vectordbbench
