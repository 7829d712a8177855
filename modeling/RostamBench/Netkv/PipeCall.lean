import RostamBench.Lib.Project
import RostamBench.Netkv.PconnSafety
import RostamBench.Netkv.PipeRouteSafety

/-!
`rostamPipeEngine.call` of `netkv/pipeline.go`: the routing, the pipelined connections and
the classic client put together.

A call takes a connection from `route`, sends its request there, and is done if the
response is `StatusOK` or `StatusNotFound`. In every other case it goes to the classic
client, once. `route` runs as in `PipeRoute` and each connection as in `Pconn`; a step of
the engine is a step of one of them or one of the call's own. A connection is found dead
by `route` only after it has failed.

The classic client is not part of this repository: a call of it returns some error or
none.
-/

namespace RostamBench.Netkv.PipeCall

open BigEndian Transition

/-- Where a call is. -/
inductive CallPc
  | start
  | routing
  | calling (c : ℕ)
  | fallback
  | returned (err : Option String)
  deriving DecidableEq

structure State (ι : Type*) where
  route : PipeRoute.State ι
  conn : ℕ → Pconn.State ι
  call : ι → CallPc
  /-- The calls of `base.Call` and what each has returned, oldest first. -/
  base : List (ι × Option String)

/-- The routing, the requests of the calls and the two codes of the server that are no
errors. -/
structure Config (ι : Type*) where
  route : PipeRoute.Config ι
  pconn : Pconn.Config ι
  statusOK : UInt8
  statusNotFound : UInt8

inductive Action (ι : Type*)
  | begin (r : ι)
  /-- A step of `route`, other than the call of it. -/
  | route (a : PipeRoute.Action ι)
  | routed (r : ι)
  /-- A step on a connection. -/
  | conn (c : ℕ) (a : Pconn.Action ι)
  | responded (r : ι)
  | base (r : ι) (err : Option String)

variable {ι : Type*}

/-- `r.err == nil`, and one of the two codes. -/
def Config.Accepts (cfg : Config ι) (p : Pconn.Presp) : Prop :=
  p.dead = false ∧ (p.status = cfg.statusOK ∨ p.status = cfg.statusNotFound)

instance (cfg : Config ι) (p : Pconn.Presp) : Decidable (cfg.Accepts p) :=
  inferInstanceAs (Decidable (_ ∧ _))

/-- What `route` gives a call. -/
def afterRoute : Option ℕ → CallPc
  | some c => .calling c
  | none => .fallback

/-- The environment may kill a connection only in `Pconn`. -/
def Allowed (s : State ι) : PipeRoute.Action ι → Prop
  | .call _ => False
  | .die pc => (s.conn pc).dead = true
  | _ => True

variable [DecidableEq ι]

def State.goto (s : State ι) (r : ι) (pc : CallPc) : State ι :=
  { s with call := Function.update s.call r pc }

def Config.Enabled (cfg : Config ι) (s : State ι) : Action ι → Prop
  | .begin r => s.call r = .start ∧ cfg.route.system.enabled s.route (.call r)
  | .route a => Allowed s a ∧ cfg.route.system.enabled s.route a
  | .routed r => s.call r = .routing ∧ ∃ o, s.route.route r = .returned o
  | .conn c a => c < s.route.opened.length ∧ (∀ r, a.caller = some r → s.call r = .calling c) ∧
      cfg.pconn.system.enabled (s.conn c) a
  | .responded r => ∃ c p, s.call r = .calling c ∧ (s.conn c).call r = .returned p
  | .base r _ => s.call r = .fallback

/-- The last lines of the matches are the states in which the step is not enabled. -/
def Config.effect (cfg : Config ι) (s : State ι) : Action ι → State ι
  | .begin r => { s.goto r .routing with route := cfg.route.system.effect s.route (.call r) }
  | .route a => { s with route := cfg.route.system.effect s.route a }
  | .routed r =>
      match s.route.route r with
      | .returned o => s.goto r (afterRoute o)
      | _ => s
  | .conn c a =>
      { s with conn := Function.update s.conn c (cfg.pconn.system.effect (s.conn c) a) }
  | .responded r =>
      match s.call r with
      | .calling c =>
          match (s.conn c).call r with
          | .returned p => s.goto r (if cfg.Accepts p then .returned none else .fallback)
          | _ => s
      | _ => s
  | .base r err => { s.goto r (.returned err) with base := s.base ++ [(r, err)] }

instance (pc : PipeRoute.RoutePc) : Decidable (∃ o, pc = .returned o) :=
  match pc with
  | .returned o => isTrue ⟨o, rfl⟩
  | .idle | .load | .lock _ | .dialing _ _ | .unlockNil | .unlock _ _ | .pick _ _ | .check _ _
  | .read _ _ | .redial _ _ | .store _ _ _ | .unlockStored _ | .panicked => isFalse (by simp)

instance (pc : Pconn.CallPc) : Decidable (∃ p, pc = .returned p) :=
  match pc with
  | .returned p => isTrue ⟨p, rfl⟩
  | .start | .lock | .check | .unlockDead | .push | .writeHdr | .writeFrame _ | .flush _
  | .unlock _ | .failCAS | .failClose | .recv => isFalse (by simp)

instance (s : State ι) (a : PipeRoute.Action ι) : Decidable (Allowed s a) :=
  match a with
  | .call _ => isFalse id
  | .die pc => inferInstanceAs (Decidable ((s.conn pc).dead = true))
  | .load _ | .lock _ | .dialOk _ | .dialFail _ | .publish _ | .unlock _ | .pick _ | .check _
  | .read _ | .redialOk _ | .redialFail _ | .store _ | .refresh _ => isTrue trivial

instance (s : State ι) (a : Pconn.Action ι) (c : ℕ) :
    Decidable (∀ r, a.caller = some r → s.call r = .calling c) :=
  match h : a.caller with
  | none => isTrue (by simp)
  | some r => decidable_of_iff (s.call r = .calling c) (by simp)

instance (s : State ι) (r : ι) :
    Decidable (∃ c p, s.call r = .calling c ∧ (s.conn c).call r = .returned p) :=
  match h : s.call r with
  | .calling c => decidable_of_iff (∃ p, (s.conn c).call r = .returned p) (by simp)
  | .start | .routing | .fallback | .returned _ => isFalse (by simp)

instance (cfg : Config ι) (s : State ι) (a : Action ι) : Decidable (cfg.Enabled s a) :=
  match a with
  | .begin _ | .route _ => inferInstanceAs (Decidable (_ ∧ _))
  | .routed r => inferInstanceAs (Decidable (_ ∧ ∃ o, s.route.route r = .returned o))
  | .conn c a => inferInstanceAs
      (Decidable (_ ∧ (∀ r, a.caller = some r → s.call r = .calling c) ∧ _))
  | .responded r => inferInstanceAs
      (Decidable (∃ c p, s.call r = .calling c ∧ (s.conn c).call r = .returned p))
  | .base r _ => inferInstanceAs (Decidable (s.call r = .fallback))

def Config.initial (cfg : Config ι) : State ι where
  route := cfg.route.initial
  conn _ := .initial
  call _ := .start
  base := []

def Config.system (cfg : Config ι) : System (State ι) (Action ι) where
  init s := s = cfg.initial
  enabled := cfg.Enabled
  effect := cfg.effect

instance (cfg : Config ι) (s : State ι) (a : Action ι) : Decidable (cfg.system.enabled s a) :=
  inferInstanceAs (Decidable (cfg.Enabled s a))

/-! ### What a step can do -/

inductive Config.Step (cfg : Config ι) (s : State ι) : Action ι → State ι → Prop
  | begin {r : ι} (hr : s.call r = .start) (ha : cfg.route.system.enabled s.route (.call r)) :
      cfg.Step s (.begin r)
        { s.goto r .routing with route := cfg.route.system.effect s.route (.call r) }
  | route {a : PipeRoute.Action ι} (ha : cfg.route.system.enabled s.route a) :
      cfg.Step s (.route a) { s with route := cfg.route.system.effect s.route a }
  | routed {r : ι} {o : Option ℕ} (hr : s.call r = .routing) (ho : s.route.route r = .returned o) :
      cfg.Step s (.routed r) (s.goto r (afterRoute o))
  | conn {c : ℕ} {a : Pconn.Action ι} (hcaller : ∀ r, a.caller = some r → s.call r = .calling c)
      (ha : cfg.pconn.system.enabled (s.conn c) a) :
      cfg.Step s (.conn c a)
        { s with conn := Function.update s.conn c (cfg.pconn.system.effect (s.conn c) a) }
  | accepted {r : ι} {c : ℕ} {p : Pconn.Presp} (hr : s.call r = .calling c)
      (hp : (s.conn c).call r = .returned p) (hacc : cfg.Accepts p) :
      cfg.Step s (.responded r) (s.goto r (.returned none))
  | refused {r : ι} {c : ℕ} {p : Pconn.Presp} (hr : s.call r = .calling c)
      (hp : (s.conn c).call r = .returned p) (hacc : ¬ cfg.Accepts p) :
      cfg.Step s (.responded r) (s.goto r .fallback)
  | base {r : ι} {err : Option String} (hr : s.call r = .fallback) :
      cfg.Step s (.base r err)
        { s.goto r (.returned err) with base := s.base ++ [(r, err)] }

variable {cfg : Config ι} {s s' : State ι} {a : Action ι} {r : ι} {c : ℕ}

theorem Config.step_effect (h : cfg.Enabled s a) : cfg.Step s a (cfg.effect s a) := by
  cases a with
  | begin r => exact .begin h.1 h.2
  | route a => exact .route h.2
  | routed r =>
      obtain ⟨hr, o, ho⟩ := h
      simp only [Config.effect, ho]
      exact .routed hr ho
  | conn c a => exact .conn h.2.1 h.2.2
  | responded r =>
      obtain ⟨c, p, hr, hp⟩ := h
      simp only [Config.effect, hr, hp]
      by_cases hacc : cfg.Accepts p
      · rw [if_pos hacc]
        exact .accepted hr hp hacc
      · rw [if_neg hacc]
        exact .refused hr hp hacc
  | base r err => exact .base h

/-! ### The components -/

/-- The steps of `route`. -/
def Action.ofRoute : Action ι → Option (PipeRoute.Action ι)
  | .begin r => some (.call r)
  | .route a => some a
  | .routed _ | .conn _ _ | .responded _ | .base _ _ => none

/-- The steps on connection `c`. -/
def Action.onConn (c : ℕ) : Action ι → Option (Pconn.Action ι)
  | .conn c' a => if c' = c then some a else none
  | .begin _ | .route _ | .routed _ | .responded _ | .base _ _ => none

theorem component_route (cfg : Config ι) :
    Component cfg.system cfg.route.system State.route Action.ofRoute where
  start := by
    rintro s rfl
    rfl
  step := by
    intro s a d ha hd
    cases a with
    | begin r =>
        cases hd
        exact ⟨ha.2, rfl⟩
    | route a =>
        cases hd
        exact ⟨ha.2, rfl⟩
    | routed r | conn c a | responded r | base r err => cases hd
  keep := by
    intro s a ha hown
    have hstep := cfg.step_effect ha
    change (cfg.effect s a).route = s.route
    generalize cfg.effect s a = s' at hstep ⊢
    cases hstep with
    | begin | route => cases hown
    | routed | conn | accepted | refused | base => rfl

theorem component_conn (cfg : Config ι) (c : ℕ) :
    Component cfg.system cfg.pconn.system (fun s => s.conn c) (Action.onConn c) where
  start := by
    rintro s rfl
    rfl
  step := by
    intro s a d ha hd
    cases a with
    | conn c' a =>
        by_cases hc : c' = c
        · subst hc
          obtain rfl : a = d := by simpa [Action.onConn] using hd
          exact ⟨ha.2.2, Function.update_self _ _ _⟩
        · simp [Action.onConn, hc] at hd
    | begin r | route a | routed r | responded r | base r err => cases hd
  keep := by
    intro s a ha hown
    have hstep := cfg.step_effect ha
    change (cfg.effect s a).conn c = s.conn c
    generalize cfg.effect s a = s' at hstep ⊢
    cases hstep with
    | @conn c' a _ _ =>
        have hc : c ≠ c' := by
          rintro rfl
          simp [Action.onConn] at hown
        exact Function.update_of_ne hc _ _
    | begin | route | routed | accepted | refused | base => rfl

/-! ### What stays -/

/-- A call of `route` that has returned stays so. -/
theorem route_returned_step {cfg : PipeRoute.Config ι} {s s' : PipeRoute.State ι}
    {a : PipeRoute.Action ι} (hstep : PipeRoute.Step cfg s a s') {o : Option ℕ}
    (h : s.route r = .returned o) : s'.route r = .returned o := by
  have hother {r' : ι} {pc : PipeRoute.RoutePc} (hr : s.route r' = pc)
      (hne : ∀ o, pc ≠ .returned o) : r ≠ r' := by
    rintro rfl
    exact hne o (hr.symm.trans h)
  cases hstep with
  | refresh | die => exact h
  | call hr | load hr | lockNil hr | lock hr | dialOk hr | dialFail hr | publish hr | unlockNil hr
  | unlock hr | unlockStored hr | pickPanic hr | pick hr | checkPanic hr | checkDead hr
  | checkLive hr | readPanic hr | read hr | redialOk hr | redialFail hr | store hr
  | storePanic hr =>
      exact (Function.update_of_ne (hother hr (by simp)) _ _).trans h

/-- And so does a call on a connection. -/
theorem conn_returned_step {cfg : Pconn.Config ι} {s s' : Pconn.State ι} (hstep : cfg.Step s s')
    {p : Pconn.Presp} (h : s.call r = .returned p) : s'.call r = .returned p := by
  have hother {i : ι} {pc : Pconn.CallPc} (hi : s.call i = pc) (hne : ∀ p, pc ≠ .returned p) :
      r ≠ i := by
    rintro rfl
    exact hne p (hi.symm.trans h)
  cases hstep with
  | startDead hi | startLive hi | lock hi | checkDead hi | checkLive hi | unlockDead hi | push hi
  | writeHdr hi | writeFrame hi | flush hi | unlockErr hi | unlockOk hi | casLost hi | casWon hi
  | close hi | recv hi =>
      exact (Function.update_of_ne (hother hi (by simp)) _ _).trans h
  | answer | readResponse | readRejected | readPanicked | readError | pop | send | readCASLost
  | readCASWon | readClose | drainPop | drainSend | drainDone => exact h

/-- A call is moved only by its own steps. -/
theorem conn_call_of_ne {cfg : Pconn.Config ι} {s : Pconn.State ι} {a : Pconn.Action ι}
    (ha : cfg.Enabled s a) (hr : a.caller ≠ some r) : (cfg.effect s a).call r = s.call r := by
  have hother {i : ι} (hi : a.caller = some i) (pc : Pconn.CallPc) :
      (s.goto i pc).call r = s.call r := by
    apply Function.update_of_ne
    rintro rfl
    exact hr hi
  cases a with
  | deadCheck i | lock i | deadCheckLocked i | unlockDead i | push i | writeHdr i t
  | callFailClose i => exact hother rfl _
  | writeFrame i t =>
      obtain ⟨⟨err, hi⟩, -⟩ := ha
      simp only [Pconn.Config.effect, hi]
      exact hother rfl _
  | flush i t =>
      obtain ⟨⟨err, hi⟩, -⟩ := ha
      simp only [Pconn.Config.effect, hi]
      exact hother rfl _
  | unlock i =>
      obtain ⟨err, hi⟩ := ha
      simp only [Pconn.Config.effect, hi]
      exact hother rfl _
  | callFailCAS i =>
      rw [Pconn.Config.effect]
      split
      · exact hother rfl _
      · exact hother rfl _
  | recv i =>
      obtain ⟨p, hp⟩ := Option.ne_none_iff_exists'.mp ha.2
      simp only [Pconn.Config.effect, hp]
      exact hother rfl _
  | answer i body | readError | readFailClose | drainDone => rfl
  | readFrame =>
      rw [Pconn.Config.effect]
      split
      · split <;> rfl
      · rfl
  | pop | send | drainPop | drainSend =>
      rw [Pconn.Config.effect]
      split <;> rfl
  | readFailCAS =>
      rw [Pconn.Config.effect]
      split <;> rfl

/-! ### The invariant -/

/-- The calls of `base.Call` that call `r` has made. -/
def State.baseOf (s : State ι) (r : ι) : List (ι × Option String) :=
  s.base.filter fun b => decide (b.1 = r)

/-- The response that has ended call `r`. -/
def State.AcceptedOn (cfg : Config ι) (s : State ι) (r : ι) (c : ℕ) (p : Pconn.Presp) : Prop :=
  s.route.route r = .returned (some c) ∧ (s.conn c).call r = .returned p ∧ cfg.Accepts p

/-- What a call has done before it is where it is. -/
def State.CallOk (cfg : Config ι) (s : State ι) (r : ι) : CallPc → Prop
  | .start | .routing | .fallback => s.baseOf r = []
  | .calling c => s.route.route r = .returned (some c) ∧ s.baseOf r = []
  | .returned err => s.baseOf r = [(r, err)] ∨
      err = none ∧ s.baseOf r = [] ∧ ∃ c p, s.AcceptedOn cfg r c p

structure Inv (cfg : Config ι) (s : State ι) : Prop where
  /-- A connection is called only by those that were routed to it. -/
  used : ∀ c r, (s.conn c).call r ≠ .start → s.route.route r = .returned (some c)
  calls : ∀ r, s.CallOk cfg r (s.call r)

/-- What a step leaves of another call. -/
structure Keeps (s s' : State ι) (r : ι) : Prop where
  route : ∀ {o}, s.route.route r = .returned o → s'.route.route r = .returned o
  conn : ∀ {c p}, (s.conn c).call r = .returned p → (s'.conn c).call r = .returned p
  base : s'.baseOf r = s.baseOf r

theorem State.CallOk.keep {pc : CallPc} (h : s.CallOk cfg r pc) (hkeeps : Keeps s s' r) :
    s'.CallOk cfg r pc := by
  cases pc with
  | start | routing | fallback => exact hkeeps.base.trans h
  | calling c => exact ⟨hkeeps.route h.1, hkeeps.base.trans h.2⟩
  | returned err =>
      rcases h with h | ⟨herr, hbase, c, p, hroute, hconn, hacc⟩
      · exact Or.inl (hkeeps.base.trans h)
      · exact Or.inr ⟨herr, hkeeps.base.trans hbase, c, p, hkeeps.route hroute, hkeeps.conn hconn,
          hacc⟩

theorem calls_update {pc : CallPc} (h : ∀ r, s.CallOk cfg r (s.call r))
    (hcall : s'.call = Function.update s.call r pc) (hr : s'.CallOk cfg r pc)
    (hkeeps : ∀ r', r' ≠ r → Keeps s s' r') : ∀ r', s'.CallOk cfg r' (s'.call r') := by
  intro r'
  rw [hcall]
  by_cases hne : r' = r
  · subst hne
    rw [Function.update_self]
    exact hr
  · rw [Function.update_of_ne hne]
    exact (h r').keep (hkeeps r' hne)

/-- A step of `route` leaves what has returned. -/
theorem route_keeps {b : PipeRoute.Action ι} (hb : cfg.route.system.enabled s.route b) {o : Option ℕ}
    (h : s.route.route r = .returned o) :
    (cfg.route.system.effect s.route b).route r = .returned o :=
  route_returned_step (PipeRoute.Config.step_cases (System.step_of_enabled hb)) h

theorem Inv.step (h : Inv cfg s) (hstep : cfg.Step s a s') : Inv cfg s' := by
  have hat {pc : CallPc} {r : ι} (hr : s.call r = pc) : s.CallOk cfg r pc := hr ▸ h.calls r
  cases hstep with
  | @begin r hr hb =>
      have hkeeps (r' : ι) : Keeps s { s.goto r .routing with
          route := cfg.route.system.effect s.route (.call r) } r' :=
        ⟨fun ho => route_keeps hb ho, fun hp => hp, rfl⟩
      refine ⟨fun c r' hc => (hkeeps r').route (h.used c r' hc), ?_⟩
      exact calls_update h.calls rfl (hat hr) fun r' _ => hkeeps r'
  | @route b hb =>
      have hkeeps (r' : ι) : Keeps s { s with route := cfg.route.system.effect s.route b } r' :=
        ⟨fun ho => route_keeps hb ho, fun hp => hp, rfl⟩
      exact ⟨fun c r' hc => (hkeeps r').route (h.used c r' hc),
        fun r' => (h.calls r').keep (hkeeps r')⟩
  | @routed r o hr ho =>
      refine ⟨h.used, calls_update h.calls rfl ?_ fun r' _ => ⟨id, id, rfl⟩⟩
      cases o with
      | none => exact hat hr
      | some c => exact ⟨ho, hat hr⟩
  | @conn c b hcaller hb =>
      have hconn {c' : ℕ} {r' : ι} {p : Pconn.Presp} (hp : (s.conn c').call r' = .returned p) :
          (Function.update s.conn c (cfg.pconn.system.effect (s.conn c) b) c').call r' =
            .returned p := by
        by_cases hc : c' = c
        · subst hc
          rw [Function.update_self]
          exact conn_returned_step (cfg.pconn.step_effect hb) hp
        · rw [Function.update_of_ne hc]
          exact hp
      refine ⟨?_, fun r' => (h.calls r').keep ⟨id, hconn, rfl⟩⟩
      intro c' r' hused
      by_cases hc : c' = c
      · subst hc
        -- A call that has just started on the connection was routed to it.
        by_cases hr : b.caller = some r'
        · exact (hat (hcaller r' hr)).1
        · refine h.used c' r' fun hstart => hused ?_
          change (Function.update s.conn c' _ c').call r' = .start
          rw [Function.update_self]
          exact (conn_call_of_ne hb hr).trans hstart
      · refine h.used c' r' fun hstart => hused ?_
        change (Function.update s.conn c _ c').call r' = .start
        rw [Function.update_of_ne hc]
        exact hstart
  | @accepted r c p hr hp hacc =>
      obtain ⟨hroute, hbase⟩ := hat hr
      exact ⟨h.used, calls_update h.calls rfl (Or.inr ⟨rfl, hbase, c, p, hroute, hp, hacc⟩)
        fun r' _ => ⟨id, id, rfl⟩⟩
  | @refused r c p hr hp hacc =>
      exact ⟨h.used, calls_update h.calls rfl (hat hr).2 fun r' _ => ⟨id, id, rfl⟩⟩
  | @base r err hr =>
      have hempty : s.baseOf r = [] := hat hr
      refine ⟨h.used, calls_update h.calls rfl (Or.inl ?_) fun r' hne => ⟨id, id, ?_⟩⟩
      · change (s.base ++ [(r, err)]).filter _ = _
        rw [List.filter_append]
        change s.baseOf r ++ _ = _
        rw [hempty]
        simp
      · change (s.base ++ [(r, err)]).filter _ = s.base.filter _
        rw [List.filter_append]
        simp [hne.symm]

theorem inv_of_run {evs : List (Action ι)} (hrun : cfg.system.Run evs s) : Inv cfg s := by
  refine hrun.reachable.invariant ?_ fun s a _ h ha => h.step (cfg.step_effect ha)
  rintro s rfl
  exact ⟨fun c r h => absurd rfl h, fun r => rfl⟩

/-! ### A pipelined call -/

/-- A call of the pipelined engine, in every interleaving of any number of calls with the
connections, the servers and the topology. One that has returned either has had its request
answered with one of the two codes, by the server at the address that was the leader of its
key when it was routed, and has not bothered the classic client; or has called the classic
client exactly once and returns what that returned. Its request was never sent on more than
one connection, and no call that is not done has had an answer of the classic client, whose
calls are single steps here. -/
theorem pipelined_call_answered {evs : List (Action ι)} (hrun : cfg.system.Run evs s) (r : ι) :
    (∀ err, s.call r = .returned err →
      s.baseOf r = [(r, err)] ∨
      (err = none ∧ s.baseOf r = [] ∧ ∃ c addr p, s.route.opened[c]? = some addr ∧
        cfg.route.LeaderDuring (evs.filterMap Action.ofRoute) r addr ∧
        (s.conn c).Answers r p ∧ (p.status = cfg.statusOK ∨ p.status = cfg.statusNotFound))) ∧
    ((∀ err, s.call r ≠ .returned err) → s.baseOf r = []) ∧
    ∀ c c', (s.conn c).call r ≠ .start → (s.conn c').call r ≠ .start → c = c' := by
  have hinv := inv_of_run hrun
  have hcall := hinv.calls r
  refine ⟨?_, ?_, ?_⟩
  · intro err hr
    rw [hr] at hcall
    rcases hcall with hbase | ⟨herr, hbase, c, p, hroute, hp, hdead, hstatus⟩
    · exact Or.inl hbase
    · have hanswers : (s.conn c).Answers r p :=
        (Pconn.SlotInv.reachable (hrun.project (component_conn cfg c)).reachable).result r p hp hdead
      obtain ⟨addr, hleader, hopened⟩ :
          ∃ addr, cfg.route.LeaderDuring (evs.filterMap Action.ofRoute) r addr ∧
            s.route.opened[c]? = some addr :=
        (PipeRoute.history_of_run (hrun.project (component_route cfg))).1.at hroute
      exact Or.inr ⟨herr, hbase, c, addr, p, hopened, hleader, hanswers, hstatus⟩
  · intro hnot
    cases hr : s.call r with
    | start | routing | fallback =>
        rw [hr] at hcall
        exact hcall
    | calling c =>
        rw [hr] at hcall
        exact hcall.2
    | returned err => exact absurd hr (hnot err)
  · intro c c' hc hc'
    have hroute := hinv.used c r hc
    rw [hinv.used c' r hc'] at hroute
    simpa using hroute.symm

/-- Two calls of an engine with one shard and one connection. -/
def oneShard : Config Bool where
  route :=
    { xxhash := fun _ => 0
      perNode := 1
      key := fun _ => [107]
      topo := { numShards := 1, leaders := ["n1:7000"] } }
  pconn := Pconn.twoCallers
  statusOK := 0
  statusNotFound := 1

/-- The first call finds its key; the second one's response is an error, and it goes to the
classic client. -/
def oneShardSchedule : List (Action Bool) :=
  [.begin true, .route (.load true), .route (.lock true), .route (.dialOk true),
    .route (.publish true), .route (.unlock true), .route (.pick true), .route (.check true),
    .route (.read true), .routed true,
    .begin false, .route (.load false), .route (.lock false), .route (.unlock false),
    .route (.pick false), .route (.check false), .route (.read false), .routed false,
    .conn 0 (.deadCheck true), .conn 0 (.lock true), .conn 0 (.deadCheckLocked true),
    .conn 0 (.push true), .conn 0 (.writeHdr true ⟨0, true⟩), .conn 0 (.writeFrame true ⟨0, true⟩),
    .conn 0 (.flush true ⟨15, true⟩), .conn 0 (.unlock true),
    .conn 0 (.deadCheck false), .conn 0 (.lock false), .conn 0 (.deadCheckLocked false),
    .conn 0 (.push false), .conn 0 (.writeHdr false ⟨0, true⟩),
    .conn 0 (.writeFrame false ⟨0, true⟩), .conn 0 (.flush false ⟨15, true⟩),
    .conn 0 (.unlock false),
    .conn 0 (.answer true [0, 0, 0, 0, 1, 7]), .conn 0 (.answer false [3, 0, 0, 0, 0]),
    .conn 0 .readFrame, .conn 0 .pop, .conn 0 .send, .conn 0 .readFrame, .conn 0 .pop,
    .conn 0 .send, .conn 0 (.recv false), .responded false, .base false none,
    .conn 0 (.recv true), .responded true]

theorem pipelined_call_answered_one_shard :
    ∃ s, oneShard.system.Run oneShardSchedule s ∧ s.call true = .returned none ∧
      s.call false = .returned none ∧ s.baseOf false = [(false, none)] ∧
      ∃ c addr p, s.route.opened[c]? = some addr ∧ (s.conn c).Answers true p := by
  have hreplay : (oneShard.system.replay oneShard.initial oneShardSchedule).map
      (fun s => (s.call true, s.call false, s.base)) =
        some (.returned none, .returned none, [(false, none)]) := by decide +kernel
  obtain ⟨s, hrun, hstate⟩ := System.run_of_replay hreplay rfl
  simp only [Prod.mk.injEq] at hstate
  obtain ⟨htrue, hfalse, hbase⟩ := hstate
  have hbaseOf (r : Bool) : s.baseOf r = [(false, none)].filter fun b => decide (b.1 = r) := by
    rw [State.baseOf, hbase]
  refine ⟨s, hrun, htrue, hfalse, (hbaseOf false).trans rfl, ?_⟩
  rcases (pipelined_call_answered hrun true).1 none htrue with h | ⟨-, -, c, addr, p, hopened, -, hp, -⟩
  · rw [hbaseOf true] at h
    cases h
  · exact ⟨c, addr, p, hopened, hp⟩

end RostamBench.Netkv.PipeCall
