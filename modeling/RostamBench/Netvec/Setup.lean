import RostamBench.Lib.Watched
import RostamBench.Netvec.Bulk

/-!
`setup` and `probe` of `netvec`, and the choice of the node that is measured.

`main` goes through the addresses and takes the first node that can serve the
collection: one that creates it (`setup`), or one that takes a write for it (`probe`).
A create is tried again only when the answer says that the cluster is still settling.

The three are programs over the requests they make, so that a statement about their
runs is about every way in which the nodes may answer. A `Visit` is what happened at
one node, and `visit_of_ends` says what a visit can be.

Two of the flags can end the program before a request is made: `setup` does not look at
the error of `http.NewRequest`, and `probe` makes a slice of `-dim` numbers. Which texts
`url.Parse` takes is a parameter.
-/

namespace RostamBench.Netvec.Setup

open Effects Bulk

/-- The flags `main` reads before the measurement. -/
structure Flags where
  addr : List Char
  coll : List Char
  dim : ℤ
  parts : ℤ
  drop : Bool
  doSetup : Bool

/-- The JSON object of a create request; the metric is always `cosine`. -/
structure CreateBody where
  name : List Char
  dim : ℤ
  partitions : ℤ
  deriving DecidableEq, Repr

inductive Req
  | delete (url : List Char)
  | create (url : List Char) (body : CreateBody)
  | points (url : List Char) (body : List Char)
  /-- `time.Sleep(2 * time.Second)`. -/
  | sleep

@[reducible]
def Req.Answer : Req → Type
  | .delete _ | .create _ _ | .points _ _ => Reply
  | .sleep => Unit

/-! ### What a reply means -/

/-- What becomes of the loop of `setup`. -/
inductive Verdict
  | accepted
  /-- Another attempt, if there is one left. -/
  | again (err : List Char)
  | rejected (err : List Char)
  deriving DecidableEq

/-- `strings.Contains`. -/
def contains (msg : List Char) (part : String) : Bool := decide (part.toList <:+: msg)

/-- `create collection: %s: %s`. -/
def createError (status msg : List Char) : List Char :=
  "create collection: ".toList ++ status ++ ": ".toList ++ msg

/-- The body of the loop of `setup` after the post. -/
def createVerdict : Reply → Verdict
  | .failed err => .again err.error
  | .response statusCode status body =>
      if statusCode < 300 then .accepted
      else
        let msg := trimSpace body
        if contains msg "already exists" || contains msg "already partitioned" then .accepted
        else if !contains msg "not leader" && !contains msg "NotLeader" then
          .rejected (createError status msg)
        else .again (createError status msg)

/-- `probe` after the post. -/
def probeVerdict : Reply → Verdict
  | .failed err => .rejected err.error
  | .response statusCode status body =>
      if 300 ≤ statusCode then
        .rejected ("probe write: ".toList ++ status ++ ": ".toList ++ trimSpace body)
      else .accepted

/-! ### `setup` and `probe` -/

def collectionsUrl (base : List Char) : List Char := base ++ "/v1/collections".toList

def collectionUrl (base coll : List Char) : List Char := collectionsUrl base ++ '/' :: coll

abbrev createRequest (f : Flags) (base : List Char) : Req :=
  .create (collectionsUrl base) { name := f.coll, dim := f.dim, partitions := f.parts }

def maxAttempts : ℕ := 10

/-- What `setup` does with a reply; `next` goes on with the loop. -/
def afterCreate (next : List Char → Prog Req.Answer (Option (List Char))) (reply : Reply) :
    Prog Req.Answer (Option (List Char)) :=
  match createVerdict reply with
  | .accepted => .ret none
  | .again err => next err
  | .rejected err => .ret (some err)

/-- The loop of `setup`, with `left` attempts to go; a result is an error. -/
def createFrom (f : Flags) (base : List Char) :
    (left attempt : ℕ) → Option (List Char) → Prog Req.Answer (Option (List Char))
  | 0, _, lastErr => .ret lastErr
  | left + 1, attempt, _ =>
      let post : Prog Req.Answer (Option (List Char)) :=
        .op (createRequest f base) (afterCreate fun err =>
          createFrom f base left (attempt + 1) (some err))
      if 0 < attempt then .op .sleep fun _ => post else post

inductive Panic
  /-- `Do` with the request that `http.NewRequest` has not made. -/
  | nilRequest
  /-- `makeslice: len out of range`. -/
  | makeslice
  deriving DecidableEq, Repr

/-- A part of `main`; its result is an error of Go, if it does not panic. -/
abbrev Part := Prog Req.Answer (Except Panic (Option (List Char)))

def create (f : Flags) (base : List Char) : Part :=
  (createFrom f base maxAttempts 0 none).bind fun res => .ret (.ok res)

/-- `setup`; nobody looks at the answer to the delete. -/
def setup (parses : List Char → Bool) (f : Flags) (base : List Char) : Part :=
  if f.drop then
    if parses (collectionUrl base f.coll) then
      .op (.delete (collectionUrl base f.coll)) fun _ => create f base
    else .ret (.error .nilRequest)
  else create f base

/-- The vector of a probe: `dim` zeros. -/
def zeroVector (dim : ℕ) : List Char :=
  '[' :: (((List.replicate dim ['0']).intersperse [',']).flatten ++ [']'])

def probeBody (dim : ℕ) : List Char :=
  "\x7b\"id\":18446744073709551615,\"upsert\":true,\"vector\":".toList ++ zeroVector dim ++
    "\x7d".toList

abbrev probeRequest (f : Flags) (base : List Char) : Req :=
  .points (collectionUrl base f.coll ++ "/points".toList) (probeBody f.dim.toNat)

/-- The error `probe` returns. -/
def probeResult (reply : Reply) : Option (List Char) :=
  match probeVerdict reply with
  | .accepted => none
  | .again err | .rejected err => some err

/-- `probe`. -/
def probe (f : Flags) (base : List Char) : Part :=
  if f.dim < 0 then .ret (.error .makeslice)
  else .op (probeRequest f base) fun reply => .ret (.ok (probeResult reply))

/-! ### The node -/

/-- `"http://" + strings.TrimSpace(a)` for the addresses of `-addr`. -/
def Flags.candidates (f : Flags) : List (List Char) :=
  (f.addr.splitOn ',').map fun a => "http://".toList ++ trimSpace a

def tryNode (parses : List Char → Bool) (f : Flags) (cand : List Char) : Part :=
  if f.doSetup then setup parses f cand else probe f cand

/-- What the loop over the addresses leaves: the notes on stderr, with the node and its
error, and `base`, unless the program has panicked. -/
structure Chosen where
  notes : List (List Char × List Char)
  base : Option (List Char)
  panicked : Option Panic

def serveFrom (parses : List Char → Bool) (f : Flags) : List (List Char) → Prog Req.Answer Chosen
  | [] => .ret { notes := [], base := none, panicked := none }
  | cand :: cands =>
      (tryNode parses f cand).bind fun
        | .error p => .ret { notes := [], base := none, panicked := some p }
        | .ok none => .ret { notes := [], base := some cand, panicked := none }
        | .ok (some err) =>
            (serveFrom parses f cands).bind fun c => .ret { c with notes := (cand, err) :: c.notes }

/-- The loop of `main` over the addresses. -/
def serve (parses : List Char → Bool) (f : Flags) : Prog Req.Answer Chosen :=
  serveFrom parses f f.candidates

/-! ### Attempts -/

/-- The replies to at most `n` attempts, and how they end: every reply but the last asked
for another attempt, and the last one was accepted, rejected, or asked in vain. -/
structure Attempts (judge : Reply → Verdict) (n : ℕ) (rs : List Reply)
    (res : Option (List Char)) : Prop where
  length_le : rs.length ≤ n
  again : ∀ r ∈ rs.dropLast, ∃ err, judge r = .again err
  last : ∃ r, rs.getLast? = some r ∧
    ((judge r = .accepted ∧ res = none) ∨
      ∃ err, res = some err ∧
        (judge r = .rejected err ∨ (judge r = .again err ∧ rs.length = n)))

variable {judge : Reply → Verdict} {n : ℕ} {r : Reply} {rs : List Reply}
  {res : Option (List Char)} {err : List Char}

theorem Attempts.accepted (h : judge r = .accepted) : Attempts judge (n + 1) [r] none where
  length_le := Nat.succ_le_succ (Nat.zero_le n)
  again := by simp
  last := ⟨r, rfl, Or.inl ⟨h, rfl⟩⟩

theorem Attempts.rejected (h : judge r = .rejected err) :
    Attempts judge (n + 1) [r] (some err) where
  length_le := Nat.succ_le_succ (Nat.zero_le n)
  again := by simp
  last := ⟨r, rfl, Or.inr ⟨err, rfl, Or.inl h⟩⟩

theorem Attempts.exhausted (h : judge r = .again err) : Attempts judge 1 [r] (some err) where
  length_le := Nat.le_refl 1
  again := by simp
  last := ⟨r, rfl, Or.inr ⟨err, rfl, Or.inr ⟨h, rfl⟩⟩⟩

theorem Attempts.cons (h : judge r = .again err) (hrs : Attempts judge n rs res) :
    Attempts judge (n + 1) (r :: rs) res := by
  obtain ⟨last, hlast, hend⟩ := hrs.last
  have hne : rs ≠ [] := by
    rintro rfl
    cases hlast
  refine ⟨Nat.succ_le_succ hrs.length_le, ?_, last, ?_, ?_⟩
  · intro r' hr'
    rw [List.dropLast_cons_of_ne_nil hne] at hr'
    rcases List.mem_cons.mp hr' with rfl | hr'
    · exact ⟨err, h⟩
    · exact hrs.again r' hr'
  · rw [List.getLast?_cons, hlast]
    rfl
  · rcases hend with haccepted | ⟨e, hres, hrejected | ⟨hagain, hlen⟩⟩
    · exact Or.inl haccepted
    · exact Or.inr ⟨e, hres, Or.inl hrejected⟩
    · exact Or.inr ⟨e, hres, Or.inr ⟨hagain, congrArg Nat.succ hlen⟩⟩

/-- The creates with these replies, the first of them being number `attempt`. -/
def createTrail (f : Flags) (base : List Char) : ℕ → List Reply → List (Event Req.Answer)
  | _, [] => []
  | attempt, r :: rs =>
      (if 0 < attempt then [⟨.sleep, ()⟩] else []) ++
        ⟨createRequest f base, r⟩ :: createTrail f base (attempt + 1) rs

section Ends

variable {f : Flags} {base : List Char} {tr : List (Event Req.Answer)}

/-- What may come after an attempt. -/
def After (next : List Char → Prog Req.Answer (Option (List Char))) (r : Reply)
    (tr : List (Event Req.Answer)) (res : Option (List Char)) : Prop :=
  (createVerdict r = .accepted ∧ tr = [] ∧ res = none) ∨
    (∃ err, createVerdict r = .rejected err ∧ tr = [] ∧ res = some err) ∨
    ∃ err, createVerdict r = .again err ∧ (next err).Ends tr res

theorem after_of_ends {next : List Char → Prog Req.Answer (Option (List Char))}
    (h : (afterCreate next r).Ends tr res) : After next r tr res := by
  rw [afterCreate] at h
  cases hr : createVerdict r with
  | accepted =>
      rw [hr] at h
      cases h
      exact Or.inl ⟨hr, rfl, rfl⟩
  | rejected err =>
      rw [hr] at h
      cases h
      exact Or.inr (Or.inl ⟨err, hr, rfl, rfl⟩)
  | again err =>
      rw [hr] at h
      exact Or.inr (Or.inr ⟨err, hr, h⟩)

/-- One attempt, and what comes after it. -/
theorem createFrom_cases {left attempt : ℕ} {lastErr : Option (List Char)}
    (h : (createFrom f base (left + 1) attempt lastErr).Ends tr res) :
    ∃ r tr', tr = (if 0 < attempt then [⟨.sleep, ()⟩] else []) ++ ⟨createRequest f base, r⟩ :: tr' ∧
      After (fun err => createFrom f base left (attempt + 1) (some err)) r tr' res := by
  rw [createFrom] at h
  by_cases hattempt : 0 < attempt
  · simp only [if_pos hattempt] at h
    cases h with
    | op h =>
        cases h with
        | @op _ _ r tr' _ h => exact ⟨r, tr', by simp [hattempt], after_of_ends h⟩
  · simp only [if_neg hattempt] at h
    cases h with
    | @op _ _ r tr' _ h => exact ⟨r, tr', by simp [hattempt], after_of_ends h⟩

theorem attempts_of_createFrom {left attempt : ℕ} {lastErr : Option (List Char)}
    (h : (createFrom f base (left + 1) attempt lastErr).Ends tr res) :
    ∃ rs, tr = createTrail f base attempt rs ∧ Attempts createVerdict (left + 1) rs res := by
  induction left generalizing attempt lastErr tr with
  | zero =>
      obtain ⟨r, tr', rfl, hcases⟩ := createFrom_cases h
      refine ⟨[r], ?_⟩
      rcases hcases with ⟨hr, rfl, rfl⟩ | ⟨err, hr, rfl, rfl⟩ | ⟨err, hr, hrest⟩
      · exact ⟨rfl, .accepted hr⟩
      · exact ⟨rfl, .rejected hr⟩
      · cases hrest
        exact ⟨rfl, .exhausted hr⟩
  | succ left ih =>
      obtain ⟨r, tr', rfl, hcases⟩ := createFrom_cases h
      rcases hcases with ⟨hr, rfl, rfl⟩ | ⟨err, hr, rfl, rfl⟩ | ⟨err, hr, hrest⟩
      · exact ⟨[r], rfl, .accepted hr⟩
      · exact ⟨[r], rfl, .rejected hr⟩
      · obtain ⟨rs, rfl, hrs⟩ := ih hrest
        exact ⟨r :: rs, rfl, .cons hr hrs⟩

theorem attempts_of_probe (r : Reply) : Attempts probeVerdict 1 [r] (probeResult r) := by
  rw [probeResult]
  cases hr : probeVerdict r with
  | accepted => exact .accepted hr
  | again err => exact .exhausted hr
  | rejected err => exact .rejected hr

/-! ### Visits -/

/-- What happened at a node: the replies to a delete, and to the creates or the probe. -/
structure Visit where
  node : List Char
  dropped : List Reply
  replies : List Reply

/-- How often a node is asked. -/
def Flags.budget (f : Flags) : ℕ := if f.doSetup then maxAttempts else 1

def Flags.verdict (f : Flags) : Reply → Verdict := if f.doSetup then createVerdict else probeVerdict

/-- The requests of a visit. -/
def Visit.trace (f : Flags) (v : Visit) : List (Event Req.Answer) :=
  if f.doSetup then
    v.dropped.map (fun r => ⟨.delete (collectionUrl v.node f.coll), r⟩) ++
      createTrail f v.node 0 v.replies
  else v.replies.map fun r => ⟨probeRequest f v.node, r⟩

/-- The collection is dropped once where that was asked for, and the node is then asked
until it accepts, refuses, or has been asked often enough. -/
structure Visit.EndsIn (f : Flags) (v : Visit) (res : Option (List Char)) : Prop where
  dropped : v.dropped.length = if f.doSetup ∧ f.drop then 1 else 0
  attempts : Attempts f.verdict f.budget v.replies res

/-- No request is made to a node: its URL is none, or there is no vector to send. -/
def Panics (parses : List Char → Bool) (f : Flags) (node : List Char) : Panic → Prop
  | .nilRequest => f.doSetup = true ∧ f.drop = true ∧ parses (collectionUrl node f.coll) = false
  | .makeslice => f.doSetup = false ∧ f.dim < 0

theorem attempts_of_create {r : Except Panic (Option (List Char))}
    (h : (create f base).Ends tr r) :
    ∃ rs res, r = .ok res ∧ tr = createTrail f base 0 rs ∧
      Attempts createVerdict maxAttempts rs res := by
  obtain ⟨tr₁, res, tr₂, rfl, hcreate, hret⟩ := h.of_bind
  cases hret
  obtain ⟨rs, rfl, hrs⟩ := attempts_of_createFrom hcreate
  exact ⟨rs, res, rfl, List.append_nil _, hrs⟩

theorem visit_of_setup {parses : List Char → Bool} {r : Except Panic (Option (List Char))}
    (hsetup : f.doSetup = true) (h : (setup parses f base).Ends tr r) :
    (∃ v : Visit, ∃ res, r = .ok res ∧ v.node = base ∧ tr = v.trace f ∧ v.EndsIn f res) ∨
      r = .error .nilRequest ∧ tr = [] ∧ Panics parses f base .nilRequest := by
  rw [setup] at h
  have hvisit (dropped : List Reply) {rs : List Reply} {res : Option (List Char)}
      (hdropped : dropped.length = if f.drop = true then 1 else 0)
      (hrs : Attempts createVerdict maxAttempts rs res) :
      (⟨base, dropped, rs⟩ : Visit).EndsIn f res :=
    ⟨by simpa [hsetup] using hdropped, by
      rw [Flags.verdict, if_pos hsetup, Flags.budget, if_pos hsetup]
      exact hrs⟩
  by_cases hdrop : f.drop = true
  · rw [if_pos hdrop] at h
    cases hparses : parses (collectionUrl base f.coll) with
    | true =>
        rw [hparses, if_pos rfl] at h
        cases h with
        | @op _ _ d tr' _ h =>
            obtain ⟨rs, res, rfl, rfl, hrs⟩ := attempts_of_create h
            exact Or.inl ⟨⟨base, [d], rs⟩, res, rfl, rfl, by simp [Visit.trace, hsetup],
              hvisit [d] (by simp [hdrop]) hrs⟩
    -- `NewRequest` has failed, and `Do` is called all the same
    | false =>
        rw [hparses, if_neg (by decide)] at h
        cases h
        exact Or.inr ⟨rfl, rfl, hsetup, hdrop, hparses⟩
  · rw [if_neg hdrop] at h
    obtain ⟨rs, res, rfl, rfl, hrs⟩ := attempts_of_create h
    exact Or.inl ⟨⟨base, [], rs⟩, res, rfl, rfl, by simp [Visit.trace, hsetup],
      hvisit [] (by simp [hdrop]) hrs⟩

theorem visit_of_probe {r : Except Panic (Option (List Char))} (hsetup : f.doSetup = false)
    (h : (probe f base).Ends tr r) :
    (∃ v : Visit, ∃ res, r = .ok res ∧ v.node = base ∧ tr = v.trace f ∧ v.EndsIn f res) ∨
      r = .error .makeslice ∧ tr = [] ∧ f.dim < 0 := by
  rw [probe] at h
  by_cases hdim : f.dim < 0
  · rw [if_pos hdim] at h
    cases h
    exact Or.inr ⟨rfl, rfl, hdim⟩
  · rw [if_neg hdim] at h
    cases h with
    | @op _ _ reply tr' _ h =>
        cases h
        refine Or.inl ⟨⟨base, [], [reply]⟩, _, rfl, rfl, by simp [Visit.trace, hsetup], ?_, ?_⟩
        · simp [hsetup]
        · simp only [Flags.verdict, Flags.budget, hsetup]
          exact attempts_of_probe reply

/-- What can happen at a node. -/
theorem visit_of_ends {parses : List Char → Bool} {r : Except Panic (Option (List Char))}
    (h : (tryNode parses f base).Ends tr r) :
    (∃ v : Visit, ∃ res, r = .ok res ∧ v.node = base ∧ tr = v.trace f ∧ v.EndsIn f res) ∨
      ∃ p, r = .error p ∧ tr = [] ∧ Panics parses f base p := by
  rw [tryNode] at h
  cases hsetup : f.doSetup with
  | true =>
      rw [hsetup, if_pos rfl] at h
      exact (visit_of_setup hsetup h).imp_right fun hpanics => ⟨.nilRequest, hpanics⟩
  | false =>
      rw [hsetup, if_neg (by decide)] at h
      exact (visit_of_probe hsetup h).imp_right fun ⟨hr, htr, hdim⟩ =>
        ⟨.makeslice, hr, htr, hsetup, hdim⟩

end Ends

/-! ### The choice of the node -/

/-- A visit that ended with an error, and the error. -/
structure Refusal (f : Flags) where
  visit : Visit
  err : List Char
  ends : visit.EndsIn f (some err)

/-- The line on stderr. -/
def Refusal.note {f : Flags} (x : Refusal f) : List Char × List Char := (x.visit.node, x.err)

/-- How the loop over the addresses may end after these refusals: with every node, with
one that has accepted, or with a panic. -/
inductive Ending (parses : List Char → Bool) (f : Flags) (cands : List (List Char))
    (tr : List (Event Req.Answer)) (c : Chosen) (refused : List (Refusal f)) : Prop
  | nobody (hbase : c.base = none) (hpanicked : c.panicked = none)
      (hcands : cands = refused.map (·.visit.node))
      (htr : tr = refused.flatMap (·.visit.trace f))
  | serves (v : Visit) (later : List (List Char)) (hbase : c.base = some v.node)
      (hpanicked : c.panicked = none) (hends : v.EndsIn f none)
      (hcands : cands = refused.map (·.visit.node) ++ v.node :: later)
      (htr : tr = refused.flatMap (·.visit.trace f) ++ v.trace f)
  | panics (node : List Char) (p : Panic) (later : List (List Char)) (hbase : c.base = none)
      (hpanicked : c.panicked = some p) (hpanics : Panics parses f node p)
      (hcands : cands = refused.map (·.visit.node) ++ node :: later)
      (htr : tr = refused.flatMap (·.visit.trace f))

theorem visits_of_serveFrom {parses : List Char → Bool} {f : Flags} {cands : List (List Char)}
    {tr : List (Event Req.Answer)} {c : Chosen} (h : (serveFrom parses f cands).Ends tr c) :
    ∃ refused : List (Refusal f), c.notes = refused.map Refusal.note ∧
      Ending parses f cands tr c refused := by
  induction cands generalizing tr c with
  | nil =>
      cases h
      exact ⟨[], rfl, .nobody rfl rfl rfl rfl⟩
  | cons cand cands ih =>
      rw [serveFrom] at h
      obtain ⟨tr₁, r, tr₂, rfl, hnode, hrest⟩ := h.of_bind
      rcases visit_of_ends hnode with ⟨v, res, rfl, rfl, rfl, hv⟩ | ⟨p, rfl, rfl, hpanics⟩
      · cases res with
        | none =>
            cases hrest
            exact ⟨[], rfl, .serves v cands rfl rfl hv rfl (by simp)⟩
        -- the loop goes on with the other nodes, and its notes come after this one
        | some err =>
            obtain ⟨tr₃, c', tr₄, rfl, hlater, hret⟩ := hrest.of_bind
            cases hret
            obtain ⟨refused, hnotes, hend⟩ := ih hlater
            refine ⟨⟨v, err, hv⟩ :: refused, by simp [hnotes, Refusal.note], ?_⟩
            cases hend with
            | nobody hbase hpanicked hcands htr =>
                exact .nobody hbase hpanicked (by simp [hcands]) (by simp [htr])
            | serves v' later hbase hpanicked hv' hcands htr =>
                exact .serves v' later hbase hpanicked hv' (by simp [hcands]) (by simp [htr])
            | panics node p later hbase hpanicked hpanics hcands htr =>
                exact .panics node p later hbase hpanicked hpanics (by simp [hcands])
                  (by simp [htr])
      · cases hrest
        exact ⟨[], rfl, .panics cand p cands rfl rfl hpanics rfl rfl⟩

/-- However the nodes answer, the node that is measured is the first of `-addr` that
accepted, its acceptance is the last thing asked before the measurement, and the notes
are those of the nodes before it. Nothing is measured only if every node has refused, or if
the program has panicked over the flags at the first node that has not. A node is asked at
most ten times and again only while it says that it is settling, and the drop comes before
that. -/
theorem serving_node_is_first_to_accept (parses : List Char → Bool) (f : Flags)
    {tr : List (Event Req.Answer)} {c : Chosen} (h : (serve parses f).Ends tr c) :
    ∃ refused : List (Refusal f), c.notes = refused.map Refusal.note ∧
      Ending parses f f.candidates tr c refused :=
  visits_of_serveFrom h

def twoNodes : Flags where
  addr := "10.0.0.1:8001, 10.0.0.2:8001".toList
  coll := "bench".toList
  dim := 128
  parts := 8
  drop := true
  doSetup := true

/-- The first node rejects the create, and the second is still settling when it is asked
first. -/
def settling : ℕ → Reply
  | 0 => .response 500 "500 Internal Server Error".toList "internal error".toList
  | 1 => .response 500 "500 Internal Server Error".toList "shard: not leader".toList
  | _ => .response 201 "201 Created".toList []

def settlingAct : Act ℕ Req.Answer
  | .delete _, n => (n, .response 404 "404 Not Found".toList [])
  | .create _ _, n => (n + 1, settling n)
  | .points _ _, n => (n, .response 404 "404 Not Found".toList [])
  | .sleep, n => (n, ())

theorem serving_node_is_first_to_accept_settling :
    ∃ tr c, (serve (fun _ => true) twoNodes).Ends tr c ∧
      c.base = some "http://10.0.0.2:8001".toList ∧
      ∃ refused : Refusal twoNodes, refused.visit.node = "http://10.0.0.1:8001".toList := by
  obtain ⟨tr, hends⟩ := (serve (fun _ => true) twoNodes).exists_ends settlingAct 0
  have hbase : ((serve (fun _ => true) twoNodes).run settlingAct 0).2.base =
      some "http://10.0.0.2:8001".toList := by decide +kernel
  refine ⟨tr, _, hends, hbase, ?_⟩
  obtain ⟨refused, -, hending⟩ := serving_node_is_first_to_accept _ twoNodes hends
  have hcands : twoNodes.candidates =
      ["http://10.0.0.1:8001".toList, "http://10.0.0.2:8001".toList] := by decide +kernel
  cases hending with
  | nobody hnone =>
      rw [hnone] at hbase
      cases hbase
  | panics node p later hnone =>
      rw [hnone] at hbase
      cases hbase
  | serves v later hv _ _ hall =>
      rw [hbase] at hv
      rw [hcands] at hall
      cases refused with
      | nil =>
          obtain ⟨hfirst, -⟩ := List.cons.inj hall
          rw [← hfirst] at hv
          exact absurd hv (by decide)
      | cons x refused => exact ⟨x, (List.cons.inj hall).1.symm⟩

end RostamBench.Netvec.Setup
