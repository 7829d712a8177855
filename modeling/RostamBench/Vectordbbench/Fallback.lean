import RostamBench.Vectordbbench.Client

/-!
The wire fallback, over every sequence of calls on one client.

A wire is in one of three phases: it is still being probed, it has been proven, or
the client has switched to JSON for good. The phase says which framing the next
request uses and moves with its answer (`Phase.next`); the last two phases are
never left. That is the specification, and a `Session` is one call that keeps to
it: every request has the framing of the phase it is sent in, and an answer that
neither succeeds nor makes the client fall back ends the call and is what the
caller gets.

The two kinds of call are programs on the cell of their own wire, so the code is
run there (`Conducts`). That each of them is a session is `conducts_call`; the
laws then are about sessions only.
-/

namespace RostamBench.Vectordbbench

open BigEndian Effects CellProg

/-- A request and what came of it. -/
structure Exchange where
  body : Body
  answer : PostAnswer

/-- The request was a binary one. -/
def Exchange.binary (e : Exchange) : Bool :=
  match e.body with
  | .octets _ => true
  | .points _ | .query _ => false

/-- What counts as a success: 200 for an insert, a status that does not raise for
a search. -/
def Wire.succeeds : Wire → Reply → Bool
  | .bulk, r => decide (r.status = 200)
  | .query, r => decide (¬ (400 ≤ r.status ∧ r.status < 600))

def Exchange.succeeded (x : Wire) (e : Exchange) : Bool :=
  match e.answer with
  | .ok r => x.succeeds r
  | .error _ => false

/-- The answer is one a server without the binary wire gives. -/
def Exchange.rejected (e : Exchange) : Bool :=
  match e.answer with
  | .ok r => r.status ∈ binaryUnsupported
  | .error _ => false

/-! ### The phases of a wire -/

inductive Phase
  | probing
  | proven
  | json
  deriving DecidableEq, Repr

def WireFlags.phase (f : WireFlags) : Phase :=
  if f.enabled then if f.proven then .proven else .probing else .json

/-- The framing of the phase. -/
def Phase.Allows (φ : Phase) (e : Exchange) : Prop := e.binary = true ↔ φ ≠ .json

/-- The client takes the answer for a missing wire. -/
def Phase.FallsBack (φ : Phase) (e : Exchange) : Prop := φ = .probing ∧ e.rejected = true

def Phase.next (x : Wire) (φ : Phase) (e : Exchange) : Phase :=
  match φ with
  | .probing => if e.succeeded x then .proven else if e.rejected then .json else .probing
  | .proven => .proven
  | .json => .json

/-- The phase after a list of exchanges. -/
def Phase.after (x : Wire) (φ : Phase) (es : List Exchange) : Phase := es.foldl (Phase.next x) φ

/-- The caller gets the failure: an insert returns it, a search raises it. -/
def Surfaces (e : Exchange) : Wire → Outcome → Prop
  | .bulk, out =>
      match e.answer with
      | .ok r => ∃ start, out = .inserted start (some (insertFailed start r))
      | .error msg => out = .inserted 0 (some (.requestError msg))
  | .query, out =>
      match e.answer with
      | .ok r => out = .searched (.error (.httpError r.status))
      | .error msg => out = .searched (.error (.requestError msg))

/-- The exchanges and the outcome of one call that starts in phase `φ`. -/
inductive Session (x : Wire) : Phase → List Exchange → Outcome → Prop
  | done (φ : Phase) (out : Outcome) : Session x φ [] out
  | next {φ : Phase} {e : Exchange} {es : List Exchange} {out : Outcome} (hallows : φ.Allows e)
      (hok : e.succeeded x = true ∨ φ.FallsBack e) (hrest : Session x (φ.next x e) es out) :
      Session x φ (e :: es) out
  | failed {φ : Phase} {e : Exchange} {out : Outcome} (hallows : φ.Allows e)
      (hfail : e.succeeded x = false) (hstay : ¬ φ.FallsBack e) (hout : Surfaces e x out) :
      Session x φ [e] out

/-! ### Running a call on its wire -/

/-- A wire: its flags, the answers still to come, and what has been exchanged. -/
structure WireCell where
  flags : WireFlags
  answers : ℕ → PostAnswer
  log : List Exchange

def wireAct : Act WireCell ClientOp.Answer
  | .enabled _, c => (c, c.flags.enabled)
  | .proven _, c => (c, c.flags.proven)
  | .disable _, c => ({ c with flags := { c.flags with enabled := false } }, ())
  | .prove _, c => ({ c with flags := { c.flags with proven := true } }, ())
  | .post _ body, c =>
      ({ c with log := c.log ++ [{ body := body, answer := c.answers c.log.length }] },
        c.answers c.log.length)

def wireOps : CellOps Wire WireCell ClientOp.Answer where
  key := ClientOp.wire
  act := wireAct

inductive Call
  | insert (c : InsertCall)
  | search (query : List UInt32) (k : ℤ)

def Call.wire : Call → Wire
  | .insert _ => .bulk
  | .search _ _ => .query

def Call.program (client : Rostam) : Call → ClientProg
  | .insert c => insertEmbeddings client.loadPath c
  | .search query k => searchEmbedding client.filter query k

/-- What one call sent and was answered, and what it returned or raised. -/
structure Record where
  wire : Wire
  exchanges : List Exchange
  outcome : Outcome

def runCall (client : Rostam) (w : Wire → WireCell) (call : Call) : (Wire → WireCell) × Record :=
  let (w', out) := wireOps.run (call.program client) w
  (w', { wire := call.wire
         exchanges := (w' call.wire).log.drop (w call.wire).log.length
         outcome := out })

/-- The calls one after another. -/
def runCalls (client : Rostam) : (Wire → WireCell) → List Call → List Record
  | _, [] => []
  | w, call :: calls => (runCall client w call).2 :: runCalls client (runCall client w call).1 calls

/-- The calls of a client on its own wires, whose requests are answered by
`answers`; the records of one wire. -/
def Rostam.records (client : Rostam) (answers : Wire → ℕ → PostAnswer) (calls : List Call)
    (x : Wire) : List Record :=
  (runCalls client (fun y => { flags := client.flags y, answers := answers y, log := [] })
    calls).filter fun r => r.wire = x

/-! ### Every call is a session -/

variable {x : Wire} {φ : Phase} {e : Exchange} {es : List Exchange} {out : Outcome}

/-- The cell after a request. -/
def WireCell.posted (c : WireCell) (body : Body) : WireCell :=
  { c with log := c.log ++ [{ body := body, answer := c.answers c.log.length }] }

@[simp] theorem WireCell.posted_flags (c : WireCell) (body : Body) :
    (c.posted body).flags = c.flags := rfl

/-- Run on the cell `c`, the program goes on with a session that was in phase
`φ` before the exchanges `pending`, and leaves the wire in the phase the session
ends in. -/
def Conducts (x : Wire) (φ : Phase) (pending : List Exchange) (p : ClientProg) (c : WireCell) :
    Prop :=
  ∃ es, (p.run wireAct c).1.log = c.log ++ es ∧
    Session x φ (pending ++ es) (p.run wireAct c).2 ∧
    (p.run wireAct c).1.flags.phase = φ.after x (pending ++ es)

theorem conducts_ret {pending : List Exchange} {c : WireCell} (hsession : Session x φ pending out)
    (hphase : c.flags.phase = φ.after x pending) : Conducts x φ pending (.ret out) c :=
  ⟨[], by simp [Prog.run], by simpa [Prog.run] using hsession,
    by simpa [Prog.run] using hphase⟩

/-- A pending exchange that succeeded, or after which the client falls back, is
behind the rest of the session. -/
theorem Conducts.next {p : ClientProg} {c : WireCell} (hallows : φ.Allows e)
    (hok : e.succeeded x = true ∨ φ.FallsBack e) (h : Conducts x (φ.next x e) [] p c) :
    Conducts x φ [e] p c := by
  obtain ⟨es, hlog, hsession, hphase⟩ := h
  exact ⟨es, hlog, .next hallows hok hsession, hphase⟩

section Ops

variable {w : Wire} {pending : List Exchange} {c : WireCell}

theorem conducts_enabled {next : Bool → ClientProg}
    (h : Conducts x φ pending (next c.flags.enabled) c) :
    Conducts x φ pending (.op (.enabled w) next) c := h

theorem conducts_proven {next : Bool → ClientProg}
    (h : Conducts x φ pending (next c.flags.proven) c) :
    Conducts x φ pending (.op (.proven w) next) c := h

theorem conducts_disable {next : Unit → ClientProg}
    (h : Conducts x φ pending (next ()) { c with flags := { c.flags with enabled := false } }) :
    Conducts x φ pending (.op (.disable w) next) c := h

theorem conducts_prove {next : Unit → ClientProg}
    (h : Conducts x φ pending (next ()) { c with flags := { c.flags with proven := true } }) :
    Conducts x φ pending (.op (.prove w) next) c := h

end Ops

/-- A request is pending once it is sent. -/
theorem conducts_post {route : Route} {body : Body} {next : PostAnswer → ClientProg}
    {c : WireCell}
    (h : Conducts x φ [{ body := body, answer := c.answers c.log.length }]
      (next (c.answers c.log.length)) (c.posted body)) :
    Conducts x φ [] (.op (.post route body) next) c := by
  obtain ⟨es, hlog, hsession, hphase⟩ := h
  refine ⟨_ :: es, ?_, hsession, hphase⟩
  show ((next (c.answers c.log.length)).run wireAct (c.posted body)).1.log = _
  rw [hlog]
  simp [WireCell.posted]

/-- A failed answer ends the session. -/
theorem conducts_failed {c : WireCell} (hallows : φ.Allows e) (hfail : e.succeeded x = false)
    (hstay : ¬ φ.FallsBack e) (hout : Surfaces e x out) (hphase : c.flags.phase = φ) :
    Conducts x φ [e] (.ret out) c := by
  refine conducts_ret (.failed hallows hfail hstay hout) (hphase.trans ?_)
  cases φ with
  | probing =>
      have hrejected : e.rejected = false := by
        simpa [Phase.FallsBack] using hstay
      simp [Phase.after, Phase.next, hfail, hrejected]
  | proven => rfl
  | json => rfl

theorem rejected_not_succeeded (h : e.rejected = true) : e.succeeded x = false := by
  obtain ⟨body, answer⟩ := e
  cases answer with
  | error msg => cases h
  | ok r =>
      have hstatus : r.status = 400 ∨ r.status = 404 ∨ r.status = 415 := by
        simpa [Exchange.rejected, binaryUnsupported] using h
      cases x with
      | bulk =>
          simp only [Exchange.succeeded, Wire.succeeds, decide_eq_false_iff_not]
          omega
      | query =>
          simp only [Exchange.succeeded, Wire.succeeds, decide_eq_false_iff_not]
          omega

theorem WireFlags.phase_of_disabled {f : WireFlags} (h : f.enabled = false) :
    f.phase = .json := by
  simp [WireFlags.phase, h]

/-- Recording a success is the phase's own step. -/
theorem WireFlags.phase_prove {f : WireFlags} (henabled : f.enabled = true)
    (hok : e.succeeded x = true) :
    WireFlags.phase { f with proven := true } = f.phase.next x e := by
  unfold WireFlags.phase
  cases f.proven <;> simp [henabled, Phase.next, hok]

theorem allows_binary {f : WireFlags} (henabled : f.enabled = true) (he : e.binary = true) :
    f.phase.Allows e := by
  have hphase : f.phase ≠ .json := by
    unfold WireFlags.phase
    rw [if_pos henabled]
    split <;> simp
  simp [Phase.Allows, he, hphase]

/-- A reply that names a missing wire switches the wire off, unless the wire has
worked before. -/
theorem conducts_unsupported {w : Wire} {r : Reply} {kept json : ClientProg} {c : WireCell}
    (he : e.answer = .ok r) (hbinary : e.binary = true)
    (hstatus : r.status ∈ binaryUnsupported) (henabled : c.flags.enabled = true)
    (hkept : ¬ c.flags.phase.FallsBack e → Conducts x c.flags.phase [e] kept c)
    (hjson : ∀ c, c.flags.enabled = false → Conducts x .json [] json c) :
    Conducts x c.flags.phase [e]
      (.op (.proven w) fun proven =>
        if proven then kept else .op (.disable w) fun _ => json) c := by
  have hallows : c.flags.phase.Allows e := allows_binary henabled hbinary
  refine conducts_proven ?_
  cases hproven : c.flags.proven with
  | true =>
      have hphase : c.flags.phase = .proven := by simp [WireFlags.phase, henabled, hproven]
      exact hkept fun h => by cases hphase.symm.trans h.1
  | false =>
      have hphase : c.flags.phase = .probing := by simp [WireFlags.phase, henabled, hproven]
      have hrejected : e.rejected = true := by
        obtain ⟨body, answer⟩ := e
        obtain rfl : answer = .ok r := he
        simpa [Exchange.rejected] using hstatus
      refine conducts_disable (.next hallows (Or.inr ⟨hphase, hrejected⟩) ?_)
      rw [hphase, Phase.next, rejected_not_succeeded hrejected, hrejected]
      exact hjson _ rfl

/-- The common part of the two calls: it is enough that `answered` deals with a
reply that is not taken for a missing wire, and `json` with a wire switched
off. -/
theorem conducts_tryBinary {route : Route} {body : Except EncodeErr Bytes}
    {raised : PyErr → Outcome} {answered : Reply → ClientProg} {json : ClientProg}
    (hraised : ∀ e msg, e.answer = .error msg → Surfaces e x (raised (.requestError msg)))
    (hanswered : ∀ e r c, e.answer = .ok r → c.flags.enabled = true → c.flags.phase.Allows e →
      ¬ c.flags.phase.FallsBack e → Conducts x c.flags.phase [e] (answered r) c)
    (hjson : ∀ c, c.flags.enabled = false → Conducts x .json [] json c) (c : WireCell) :
    Conducts x c.flags.phase [] (tryBinary route body raised answered json) c := by
  unfold tryBinary
  refine conducts_enabled ?_
  cases henabled : c.flags.enabled with
  | false =>
      rw [WireFlags.phase_of_disabled henabled]
      exact hjson c henabled
  | true =>
      cases body with
      | error err => exact conducts_ret (.done _ _) rfl
      | ok b =>
          refine conducts_post ?_
          have hallows : c.flags.phase.Allows
              { body := .octets b, answer := c.answers c.log.length } :=
            allows_binary henabled rfl
          cases hans : c.answers c.log.length with
          | error msg =>
              rw [hans] at hallows
              exact conducts_failed hallows rfl (fun h => by cases h.2) (hraised _ msg rfl) rfl
          | ok r =>
              rw [hans] at hallows
              -- A rejection may fall back; whatever else comes is `answered`'s.
              have hkept (hstay : ¬ c.flags.phase.FallsBack
                  { body := .octets b, answer := .ok r }) :=
                hanswered _ r (c.posted (.octets b)) rfl henabled hallows hstay
              by_cases hstatus : r.status ∈ binaryUnsupported
              · simp only [if_pos hstatus]
                exact conducts_unsupported (c := c.posted (.octets b)) rfl rfl hstatus
                  henabled hkept hjson
              · simp only [if_neg hstatus]
                exact hkept fun h => hstatus (by simpa [Exchange.rejected] using h.2)

/-- The JSON request of either call, on a wire that is switched off. -/
theorem conducts_json {route : Route} {body : Body} {next : PostAnswer → ClientProg}
    {c : WireCell} (henabled : c.flags.enabled = false) (hbody : ∀ b, body ≠ .octets b)
    (hok : ∀ e : Exchange, e.succeeded x = true →
      Conducts x .json [] (next e.answer) (c.posted body))
    (hfail : ∀ e : Exchange, e.succeeded x = false →
      ∃ out, next e.answer = .ret out ∧ Surfaces e x out) :
    Conducts x .json [] (.op (.post route body) next) c := by
  have hphase := WireFlags.phase_of_disabled henabled
  refine conducts_post ?_
  have hallows : Phase.json.Allows { body := body, answer := c.answers c.log.length } := by
    cases body with
    | octets b => exact absurd rfl (hbody b)
    | points b => simp [Phase.Allows, Exchange.binary]
    | query q => simp [Phase.Allows, Exchange.binary]
  cases hsucceeded :
      Exchange.succeeded x { body := body, answer := c.answers c.log.length } with
  | true => exact .next hallows (Or.inl hsucceeded) (hok _ hsucceeded)
  | false =>
      obtain ⟨out, hnext, hout⟩ := hfail _ hsucceeded
      rw [hnext]
      exact conducts_failed hallows hsucceeded (fun h => by cases h.1) hout hphase

/-! ### Inserts -/

theorem conducts_insertAnswered {start : ℕ} {rest : ClientProg}
    (hrest : ∀ c : WireCell, Conducts .bulk c.flags.phase [] rest c) {r : Reply} {c : WireCell}
    (he : e.answer = .ok r) (henabled : c.flags.enabled = true) (hallows : c.flags.phase.Allows e)
    (hstay : ¬ c.flags.phase.FallsBack e) :
    Conducts .bulk c.flags.phase [e] (insertAnswered start rest r) c := by
  unfold insertAnswered
  by_cases hstatus : r.status = 200
  · have hok : e.succeeded .bulk = true := by simp [Exchange.succeeded, he, Wire.succeeds, hstatus]
    simp only [hstatus, ne_eq, not_true_eq_false, if_false]
    refine conducts_prove (.next hallows (Or.inl hok) ?_)
    rw [← WireFlags.phase_prove henabled hok]
    exact hrest { c with flags := { c.flags with proven := true } }
  · have hfail : e.succeeded .bulk = false := by
      simp [Exchange.succeeded, he, Wire.succeeds, hstatus]
    simp only [ne_eq, hstatus, not_false_eq_true, if_true]
    refine conducts_failed hallows hfail hstay ?_ rfl
    simp only [Surfaces, he]
    exact ⟨start, rfl⟩

theorem conducts_insertJson {p : LoadPath} {ic : InsertCall} {start : ℕ} {rest : ClientProg}
    (hrest : ∀ c : WireCell, Conducts .bulk c.flags.phase [] rest c) {c : WireCell}
    (henabled : c.flags.enabled = false) :
    Conducts .bulk .json [] (insertJson p ic start rest) c := by
  have hphase := WireFlags.phase_of_disabled henabled
  refine conducts_json henabled (by simp) ?_ ?_
  · rintro ⟨body, msg | r⟩ hok
    · cases hok
    · have hstatus : r.status = 200 := by simpa [Exchange.succeeded, Wire.succeeds] using hok
      simp only [hstatus, ne_eq, not_true_eq_false, if_false]
      rw [← hphase]
      exact hrest _
  · rintro ⟨body, msg | r⟩ hfail
    · exact ⟨_, rfl, rfl⟩
    · have hstatus : r.status ≠ 200 := by simpa [Exchange.succeeded, Wire.succeeds] using hfail
      simp only [hstatus, ne_eq, not_false_eq_true, if_true]
      exact ⟨_, rfl, start, rfl⟩

theorem conducts_insertFrom (p : LoadPath) (ic : InsertCall) (starts : List ℕ) (c : WireCell) :
    Conducts .bulk c.flags.phase [] (insertFrom p ic starts) c := by
  induction starts generalizing c with
  | nil => exact conducts_ret (.done _ _) rfl
  | cons start starts ih =>
      refine conducts_tryBinary ?_ ?_ ?_ c
      · intro e msg he
        simp only [Surfaces, he]
        rfl
      · intro e r c he henabled hallows hstay
        exact conducts_insertAnswered ih he henabled hallows hstay
      · intro c henabled
        exact conducts_insertJson ih henabled

/-! ### Searches -/

theorem raiseForStatus_of_succeeds {r : Reply} (h : Wire.query.succeeds r = true) :
    raiseForStatus r = .ok () := by
  have hstatus : ¬ (400 ≤ r.status ∧ r.status < 600) := of_decide_eq_true h
  rw [raiseForStatus, if_neg hstatus]

theorem raiseForStatus_of_not_succeeds {r : Reply} (h : Wire.query.succeeds r = false) :
    raiseForStatus r = .error (.httpError r.status) := by
  have hstatus : 400 ≤ r.status ∧ r.status < 600 := by simpa [Wire.succeeds] using h
  rw [raiseForStatus, if_pos hstatus]

theorem conducts_searchAnswered {r : Reply} {c : WireCell} (he : e.answer = .ok r)
    (henabled : c.flags.enabled = true) (hallows : c.flags.phase.Allows e)
    (hstay : ¬ c.flags.phase.FallsBack e) :
    Conducts .query c.flags.phase [e] (searchAnswered r) c := by
  unfold searchAnswered
  cases hsucceeds : Wire.query.succeeds r with
  | true =>
      have hok : e.succeeded .query = true := by simpa [Exchange.succeeded, he] using hsucceeds
      rw [raiseForStatus_of_succeeds hsucceeds]
      refine conducts_prove (conducts_ret (.next hallows (Or.inl hok) (.done _ _)) ?_)
      exact WireFlags.phase_prove henabled hok
  | false =>
      have hfail : e.succeeded .query = false := by simpa [Exchange.succeeded, he] using hsucceeds
      rw [raiseForStatus_of_not_succeeds hsucceeds]
      refine conducts_failed hallows hfail hstay ?_ rfl
      simp only [Surfaces, he]
      rfl

theorem conducts_searchJson {f : FilterState} {query : List UInt32} {k : ℤ} {c : WireCell}
    (henabled : c.flags.enabled = false) :
    Conducts .query .json [] (searchJson f query k) c := by
  have hphase := WireFlags.phase_of_disabled henabled
  refine conducts_json henabled (by simp) ?_ ?_
  · rintro ⟨body, msg | r⟩ hok
    · cases hok
    · simp only [raiseForStatus_of_succeeds (show Wire.query.succeeds r = true from hok)]
      exact conducts_ret (.done _ _) hphase
  · rintro ⟨body, msg | r⟩ hfail
    · exact ⟨_, rfl, rfl⟩
    · simp only [raiseForStatus_of_not_succeeds (show Wire.query.succeeds r = false from hfail)]
      exact ⟨_, rfl, rfl⟩

theorem conducts_searchEmbedding (f : FilterState) (query : List UInt32) (k : ℤ)
    (c : WireCell) : Conducts .query c.flags.phase [] (searchEmbedding f query k) c := by
  refine conducts_tryBinary ?_ ?_ ?_ c
  · intro e msg he
    simp only [Surfaces, he]
    rfl
  · intro e r c he henabled hallows hstay
    exact conducts_searchAnswered he henabled hallows hstay
  · intro c henabled
    exact conducts_searchJson henabled

theorem conducts_call (client : Rostam) (call : Call) (c : WireCell) :
    Conducts call.wire c.flags.phase [] (call.program client) c := by
  cases call with
  | insert ic => exact conducts_insertFrom client.loadPath ic _ c
  | search query k => exact conducts_searchEmbedding client.filter query k c

/-! ### A call stays on its wire -/

theorem uses_tryBinary (route : Route) {body : Except EncodeErr Bytes} {raised : PyErr → Outcome}
    {answered : Reply → ClientProg} {json : ClientProg}
    (hanswered : ∀ r, (answered r).Uses fun o => o.wire = route.wire)
    (hjson : json.Uses fun o => o.wire = route.wire) :
    (tryBinary route body raised answered json).Uses fun o => o.wire = route.wire := by
  unfold tryBinary
  refine ⟨rfl, ?_⟩
  rintro (_ | _)
  · exact hjson
  · cases body with
    | error err => trivial
    | ok b =>
        refine ⟨rfl, ?_⟩
        rintro (msg | r)
        · trivial
        · by_cases hstatus : r.status ∈ binaryUnsupported
          · simp only [if_pos hstatus]
            refine ⟨rfl, ?_⟩
            rintro (_ | _)
            · exact ⟨rfl, fun _ => hjson⟩
            · exact hanswered r
          · simp only [if_neg hstatus]
            exact hanswered r

theorem wire_route (p : LoadPath) : p.route.wire = .bulk := by
  cases p <;> rfl

theorem uses_insertFrom (p : LoadPath) (ic : InsertCall) (starts : List ℕ) :
    (insertFrom p ic starts).Uses fun o => o.wire = p.route.wire := by
  induction starts with
  | nil => trivial
  | cons start starts ih =>
      refine uses_tryBinary p.route (fun r => ?_) ⟨rfl, ?_⟩
      · unfold insertAnswered
        split
        · trivial
        · exact ⟨(wire_route p).symm, fun _ => ih⟩
      · rintro (msg | r)
        · trivial
        · show (if r.status ≠ 200 then _ else _ : ClientProg).Uses _
          split
          · trivial
          · exact ih

theorem uses_searchEmbedding (f : FilterState) (query : List UInt32) (k : ℤ) :
    (searchEmbedding f query k).Uses fun o => o.wire = .query := by
  refine uses_tryBinary .pointsSearch (fun r => ?_) ⟨rfl, ?_⟩
  · unfold searchAnswered
    split
    · trivial
    · exact ⟨rfl, fun _ => trivial⟩
  · rintro (msg | r)
    · trivial
    · dsimp only
      split <;> trivial

theorem uses_call (client : Rostam) (call : Call) :
    (call.program client).Uses fun o => o.wire = call.wire := by
  cases call with
  | insert ic =>
      have h := uses_insertFrom client.loadPath ic (chunkStarts ic.metadata.length)
      rw [wire_route] at h
      exact h
  | search query k => exact uses_searchEmbedding client.filter query k

/-- The cell of a call's wire after the call. -/
def cellAfter (client : Rostam) (call : Call) (c : WireCell) : WireCell :=
  ((call.program client).run wireAct c).1

/-- The record of a call made on the cell `c`. -/
def recordOf (client : Rostam) (call : Call) (c : WireCell) : Record where
  wire := call.wire
  exchanges := (cellAfter client call c).log.drop c.log.length
  outcome := ((call.program client).run wireAct c).2

theorem runCall_eq (client : Rostam) (w : Wire → WireCell) (call : Call) :
    runCall client w call =
      (Function.update w call.wire (cellAfter client call (w call.wire)),
        recordOf client call (w call.wire)) := by
  have hrun : wireOps.run (call.program client) w = _ :=
    CellOps.run_of_uses (uses_call client call) w
  rw [runCall, hrun]
  simp [recordOf, cellAfter, wireOps]

/-! ### Sequences of sessions -/

/-- The calls on one wire, each a session that starts in the phase the one before
has left. -/
def Conversation (x : Wire) : Phase → List Record → Prop
  | _, [] => True
  | φ, r :: rs => Session x φ r.exchanges r.outcome ∧ Conversation x (φ.after x r.exchanges) rs

/-- Every request has the framing of the phase it is sent in. -/
def Follows (x : Wire) : Phase → List Exchange → Prop
  | _, [] => True
  | φ, e :: es => φ.Allows e ∧ Follows x (φ.next x e) es

theorem Phase.after_append (x : Wire) (φ : Phase) (l₁ l₂ : List Exchange) :
    φ.after x (l₁ ++ l₂) = (φ.after x l₁).after x l₂ :=
  List.foldl_append

theorem follows_append {l₁ l₂ : List Exchange} :
    Follows x φ (l₁ ++ l₂) ↔ Follows x φ l₁ ∧ Follows x (φ.after x l₁) l₂ := by
  induction l₁ generalizing φ with
  | nil => simp [Follows, Phase.after]
  | cons e l₁ ih =>
      rw [List.cons_append, Follows, Follows, ih, and_assoc]
      rfl

theorem Session.follows (h : Session x φ es out) : Follows x φ es := by
  induction h with
  | done => trivial
  | next hallows _ _ ih => exact ⟨hallows, ih⟩
  | failed hallows _ _ _ => exact ⟨hallows, trivial⟩

theorem Conversation.follows {rs : List Record} (h : Conversation x φ rs) :
    Follows x φ (rs.flatMap Record.exchanges) := by
  induction rs generalizing φ with
  | nil => trivial
  | cons r rs ih =>
      rw [List.flatMap_cons]
      exact follows_append.mpr ⟨h.1.follows, ih h.2⟩

theorem Conversation.append {rs₁ rs₂ : List Record} (h : Conversation x φ (rs₁ ++ rs₂)) :
    Conversation x (φ.after x (rs₁.flatMap Record.exchanges)) rs₂ := by
  induction rs₁ generalizing φ with
  | nil => exact h
  | cons r rs₁ ih =>
      rw [List.flatMap_cons, Phase.after_append]
      exact ih h.2

/-- A wire that has been switched off stays off. -/
theorem Follows.json (h : Follows x .json es) : ∀ e ∈ es, e.binary = false := by
  induction es with
  | nil => simp
  | cons e es ih =>
      obtain ⟨hallows, hrest⟩ := h
      have he : e.binary = false := by simpa [Phase.Allows] using hallows
      simpa [he] using ih hrest

/-- A proven wire stays proven. -/
theorem Follows.proven (h : Follows x .proven es) : ∀ e ∈ es, e.binary = true := by
  induction es with
  | nil => simp
  | cons e es ih =>
      obtain ⟨hallows, hrest⟩ := h
      have he : e.binary = true := by simpa [Phase.Allows] using hallows
      simpa [he] using ih hrest

theorem Phase.after_proven (x : Wire) (es : List Exchange) : Phase.proven.after x es = .proven := by
  induction es with
  | nil => rfl
  | cons e es ih => exact ih

/-- A binary success proves the wire. -/
theorem Phase.next_of_success (hallows : φ.Allows e) (hbinary : e.binary = true)
    (hok : e.succeeded x = true) : φ.next x e = .proven := by
  cases φ with
  | probing => simp [Phase.next, hok]
  | proven => rfl
  | json => simp [Phase.Allows, hbinary] at hallows

theorem Follows.after_of_success (h : Follows x φ es) (he : e ∈ es) (hbinary : e.binary = true)
    (hok : e.succeeded x = true) : φ.after x es = .proven := by
  obtain ⟨l₁, l₂, rfl⟩ := List.append_of_mem he
  obtain ⟨_, hallows, _⟩ := follows_append.mp h
  rw [Phase.after_append]
  show ((φ.after x l₁).next x e).after x l₂ = .proven
  rw [Phase.next_of_success hallows hbinary hok, Phase.after_proven]

/-- First binary requests, then JSON requests. -/
theorem Follows.split (h : Follows x φ es) :
    ∃ bs js, es = bs ++ js ∧ (∀ e ∈ bs, e.binary = true) ∧ ∀ e ∈ js, e.binary = false := by
  induction es generalizing φ with
  | nil => exact ⟨[], [], rfl, by simp, by simp⟩
  | cons e es ih =>
      cases hbinary : e.binary with
      | true =>
          obtain ⟨bs, js, rfl, hbs, hjs⟩ := ih h.2
          exact ⟨e :: bs, js, rfl, by simpa [hbinary] using hbs, hjs⟩
      | false =>
          -- JSON is only sent with the wire off, and off it stays.
          have hφ : φ = .json := by simpa [Phase.Allows, hbinary] using h.1
          subst hφ
          exact ⟨[], e :: es, rfl, by simp, h.json⟩

/-- On a proven wire a failed answer is what the caller gets. -/
theorem Session.surfaces {es₁ es₂ : List Exchange} (h : Session x φ (es₁ ++ e :: es₂) out)
    (hproven : φ.after x es₁ = .proven) (hfail : e.succeeded x = false) : Surfaces e x out := by
  induction es₁ generalizing φ with
  | nil =>
      obtain rfl : φ = .proven := hproven
      cases h with
      | next _ hok _ =>
          rcases hok with hok | hback
          · rw [hfail] at hok
            cases hok
          · cases hback.1
      | failed _ _ _ hout => exact hout
  | cons e' es₁ ih =>
      rw [List.cons_append] at h
      generalize hes : es₁ ++ e :: es₂ = es at h
      cases h with
      | next _ _ hrest =>
          subst hes
          exact ih hrest hproven
      | failed => simp at hes

/-! ### The laws -/

theorem recordOf_session (client : Rostam) (call : Call) (c : WireCell) :
    Session call.wire c.flags.phase (recordOf client call c).exchanges
        (recordOf client call c).outcome ∧
      (cellAfter client call c).flags.phase =
        c.flags.phase.after call.wire (recordOf client call c).exchanges := by
  obtain ⟨es, hlog, hsession, hphase⟩ := conducts_call client call c
  have hexchanges : (recordOf client call c).exchanges = es := by
    rw [recordOf, cellAfter, hlog, List.drop_left]
  rw [hexchanges]
  exact ⟨hsession, hphase⟩

theorem conversation_runCalls (client : Rostam) (x : Wire) (calls : List Call)
    (w : Wire → WireCell) :
    Conversation x (w x).flags.phase
      ((runCalls client w calls).filter fun r => r.wire = x) := by
  induction calls generalizing w with
  | nil => trivial
  | cons call calls ih =>
      rw [runCalls, runCall_eq]
      by_cases hx : call.wire = x
      · subst hx
        obtain ⟨hsession, hphase⟩ := recordOf_session client call (w call.wire)
        have ih := ih (Function.update w call.wire (cellAfter client call (w call.wire)))
        rw [Function.update_self, hphase] at ih
        rw [List.filter_cons_of_pos (by simp [recordOf])]
        exact ⟨hsession, ih⟩
      · have ih := ih (Function.update w call.wire (cellAfter client call (w call.wire)))
        rw [Function.update_of_ne (Ne.symm hx)] at ih
        rw [List.filter_cons_of_neg (by simp [recordOf, hx])]
        exact ih

/-- The records of a wire are a matter of the cell of that wire. -/
theorem runCalls_congr (client : Rostam) (x : Wire) (calls : List Call)
    {w w' : Wire → WireCell} (hw : w x = w' x) :
    ((runCalls client w calls).filter fun r => r.wire = x) =
      (runCalls client w' calls).filter fun r => r.wire = x := by
  induction calls generalizing w w' with
  | nil => rfl
  | cons call calls ih =>
      rw [runCalls, runCalls, runCall_eq, runCall_eq]
      by_cases hx : call.wire = x
      · subst hx
        rw [List.filter_cons_of_pos (by simp [recordOf]),
          List.filter_cons_of_pos (by simp [recordOf]), hw]
        exact congrArg _ (ih (by simp))
      · rw [List.filter_cons_of_neg (by simp [recordOf, hx]),
          List.filter_cons_of_neg (by simp [recordOf, hx])]
        exact ih (by simp [Ne.symm hx, hw])

/-- The fallback laws of either wire of a client, over every sequence of calls
and of answers. After a binary request succeeded every later request is binary,
and a later failure is what its caller gets. The binary requests all come before
the JSON ones, so the client falls back at most once. And nothing on this wire
depends on the answers the other wire gets. -/
theorem wire_fallback_laws (client : Rostam) (answers : Wire → ℕ → PostAnswer)
    (calls : List Call) (x : Wire) :
    (∀ l₁ e l₂, (client.records answers calls x).flatMap Record.exchanges = l₁ ++ e :: l₂ →
      e.binary = true → e.succeeded x = true → ∀ e' ∈ l₂, e'.binary = true) ∧
    (∀ rs₁ r rs₂ es₁ e' es₂, client.records answers calls x = rs₁ ++ r :: rs₂ →
      r.exchanges = es₁ ++ e' :: es₂ →
      (∃ e ∈ rs₁.flatMap Record.exchanges ++ es₁, e.binary = true ∧ e.succeeded x = true) →
      e'.succeeded x = false → Surfaces e' x r.outcome) ∧
    (∃ bs js, (client.records answers calls x).flatMap Record.exchanges = bs ++ js ∧
      (∀ e ∈ bs, e.binary = true) ∧ ∀ e ∈ js, e.binary = false) ∧
    ∀ answers' : Wire → ℕ → PostAnswer, answers' x = answers x →
      client.records answers' calls x = client.records answers calls x := by
  have hconv := conversation_runCalls client x calls
    fun y => { flags := client.flags y, answers := answers y, log := [] }
  refine ⟨?_, ?_, hconv.follows.split, ?_⟩
  · intro l₁ e l₂ hhist hbinary hok
    have hfollows := hconv.follows
    rw [Rostam.records] at hhist
    rw [hhist] at hfollows
    obtain ⟨_, hallows, hrest⟩ := follows_append.mp hfollows
    rw [Phase.next_of_success hallows hbinary hok] at hrest
    exact hrest.proven
  · rintro rs₁ r rs₂ es₁ e' es₂ hrecords hexchanges ⟨e, he, hbinary, hok⟩ hfail
    rw [Rostam.records] at hrecords
    rw [hrecords] at hconv
    have hafter := hconv.append
    have hsession := hafter.1
    rw [hexchanges] at hsession
    refine hsession.surfaces ?_ hfail
    rw [← Phase.after_append]
    refine Follows.after_of_success ?_ he hbinary hok
    have hfollows := hconv.follows
    rw [List.flatMap_append, List.flatMap_cons, hexchanges] at hfollows
    exact (follows_append.mp (by simpa using hfollows)).1
  · intro answers' hanswers
    exact runCalls_congr client x calls (by simp [hanswers])

/-- A client that probes both wires. -/
def probingClient : Rostam where
  loadPath := .bulk
  flags _ := { enabled := true, proven := false }
  filter := { queryFilter := none, filterBlob := [] }

/-- A server that knows neither wire. -/
def oldServer (_ : Wire) (n : ℕ) : PostAnswer :=
  .ok { status := if n = 0 then 415 else 200, text := "", hits := .ok [] }

/-- An insert of one point, between two searches. -/
def insertBetweenSearches : List Call :=
  [.search [0x3f800000] 10, .insert (onePoint 3), .search [0x3f800000] 10]

/-- Either wire falls back once, and the insert's does so whatever the searches
are answered. -/
theorem wire_fallback_laws_old_server :
    ((probingClient.records oldServer insertBetweenSearches .query).flatMap
        Record.exchanges).map Exchange.binary = [true, false, false] ∧
    ∀ answers, answers .bulk = oldServer .bulk →
      ((probingClient.records answers insertBetweenSearches .bulk).flatMap
        Record.exchanges).map Exchange.binary = [true, false] := by
  refine ⟨by decide +kernel, fun answers hanswers => ?_⟩
  obtain ⟨_, _, _, hindependent⟩ :=
    wire_fallback_laws probingClient oldServer insertBetweenSearches .bulk
  rw [hindependent answers hanswers]
  decide +kernel

end RostamBench.Vectordbbench
