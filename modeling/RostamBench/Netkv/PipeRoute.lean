import RostamBench.Lib.Transition
import RostamBench.Lib.BigEndian

/-!
`rostamPipeEngine` of `netkv/pipeline.go`: how `route` finds, dials and replaces
the pipelined connections, with any number of calls at once.

A connection is named by its position among those `dialPConn` has returned, and
`opened` says where each was dialled to. `e.conns[addr]` is set once for an address,
so the slice a call has taken out of the map and the one in the map are the same
array: an assignment to a slot is seen by everybody, and a call that reads its slot
twice may find two connections there. An empty list is a nil slice.

The topology, the dials and the deaths are the environment's. The window is at
least one, so `dialPConn` can make its channel.

`Shape` is what holds of the lists and of the calls in every state whatever happens:
a list is nil or has `perNode` entries, and a call that has a slot has one within
its list.
-/

namespace RostamBench.Netkv.PipeRoute

open BigEndian Transition

/-- `wire.Topology`. -/
structure Topology where
  numShards : Int64
  leaders : List String
  deriving DecidableEq, Repr

/-- Where a call of `route` is. -/
inductive RoutePc
  | idle
  | load
  | lock (addr : String)
  /-- In the dial loop, with the `pcs` so far. -/
  | dialing (addr : String) (pcs : List ℕ)
  | unlockNil
  /-- `n` is `len(pcs)`. -/
  | unlock (addr : String) (n : ℕ)
  | pick (addr : String) (n : ℕ)
  | check (addr : String) (i : ℤ)
  | read (addr : String) (i : ℕ)
  | redial (addr : String) (i : ℕ)
  | store (addr : String) (i : ℕ) (pc : ℕ)
  | unlockStored (pc : ℕ)
  | returned (pc : Option ℕ)
  | panicked
  deriving DecidableEq, Repr

structure State (ι : Type*) where
  topo : Option Topology
  conns : String → List ℕ
  mu : Option ι
  rr : UInt64
  /-- The address of every connection that was ever dialled. -/
  opened : List String
  dead : ℕ → Bool
  route : ι → RoutePc

inductive Action (ι : Type*)
  | call (r : ι)
  | load (r : ι)
  | lock (r : ι)
  | dialOk (r : ι)
  | dialFail (r : ι)
  | publish (r : ι)
  | unlock (r : ι)
  | pick (r : ι)
  | check (r : ι)
  | read (r : ι)
  | redialOk (r : ι)
  | redialFail (r : ι)
  | store (r : ι)
  /-- `refreshTopology` stores a topology. -/
  | refresh (t : Topology)
  /-- A connection fails. -/
  | die (pc : ℕ)
  deriving DecidableEq

/-- `xxhash.Sum64`, the flags, the keys of the calls, and the topology of
`newRostamPipe`. -/
structure Config (ι : Type*) where
  xxhash : Bytes → UInt64
  perNode : ℤ
  key : ι → Bytes
  topo : Topology

variable {ι : Type*}

/-! ### Steps -/

/-- `Leaders[int(xxhash.Sum64(key)%uint64(NumShards))]`, behind the checks. -/
def Config.target (cfg : Config ι) (key : Bytes) : Option Topology → RoutePc
  | none => .returned none
  | some t =>
      if t.numShards = 0 ∨ (t.leaders.length : ℤ) ≠ t.numShards.toInt then .returned none
      else
        match t.leaders[(cfg.xxhash key % t.numShards.toUInt64).toNat]? with
        | none => .panicked
        | some addr => if addr = "" then .returned none else .lock addr

/-- `int(v) % len(pcs)`; `none` is the division by zero. -/
def slotOf (v : UInt64) (n : ℕ) : Option ℤ :=
  if n = 0 then none else some (v.toInt64.toInt.tmod n)

/-- `pcs[i]`; `none` is an index out of range. -/
def slotAt (pcs : List ℕ) (i : ℤ) : Option ℕ := if 0 ≤ i then pcs[i.toNat]? else none

variable [DecidableEq ι]

def State.goto (s : State ι) (r : ι) (pc : RoutePc) : State ι :=
  { s with route := Function.update s.route r pc }

/-- A dial that succeeds gives the next connection. -/
def State.dialled (s : State ι) (addr : String) : State ι :=
  { s with opened := s.opened ++ [addr] }

/-- One step of a call, or of the environment. A lock is taken together with the
first thing done under it. -/
def Config.step (cfg : Config ι) (s : State ι) : Action ι → Option (State ι)
  | .call r =>
      match s.route r with
      | .idle => some (s.goto r .load)
      | _ => none
  | .load r =>
      match s.route r with
      | .load => some (s.goto r (cfg.target (cfg.key r) s.topo))
      | _ => none
  | .lock r =>
      match s.route r, s.mu with
      | .lock addr, none =>
          let pcs := s.conns addr
          some { s.goto r (if pcs = [] then .dialing addr [] else .unlock addr pcs.length) with
            mu := some r }
      | _, _ => none
  | .dialOk r =>
      match s.route r with
      | .dialing addr pcs =>
          if pcs.length < cfg.perNode then
            some ((s.dialled addr).goto r (.dialing addr (pcs ++ [s.opened.length])))
          else none
      | _ => none
  | .dialFail r =>
      match s.route r with
      | .dialing _ pcs => if pcs.length < cfg.perNode then some (s.goto r .unlockNil) else none
      | _ => none
  | .publish r =>
      match s.route r with
      | .dialing addr pcs =>
          if pcs.length < cfg.perNode then none
          else
            some { s.goto r (.unlock addr pcs.length) with
              conns := Function.update s.conns addr pcs }
      | _ => none
  | .unlock r =>
      match s.route r with
      | .unlockNil => some { s.goto r (.returned none) with mu := none }
      | .unlock addr n => some { s.goto r (.pick addr n) with mu := none }
      | .unlockStored pc => some { s.goto r (.returned (some pc)) with mu := none }
      | _ => none
  | .pick r =>
      match s.route r with
      | .pick addr n =>
          some { s.goto r (match slotOf (s.rr + 1) n with
            | none => .panicked
            | some i => .check addr i) with rr := s.rr + 1 }
      | _ => none
  | .check r =>
      match s.route r with
      | .check addr i =>
          some (s.goto r (match slotAt (s.conns addr) i with
            | none => .panicked
            | some pc => if s.dead pc then .redial addr i.toNat else .read addr i.toNat))
      | _ => none
  | .read r =>
      match s.route r with
      | .read addr i =>
          some (s.goto r (match (s.conns addr)[i]? with
            | none => .panicked
            | some pc => .returned (some pc)))
      | _ => none
  | .redialOk r =>
      match s.route r with
      | .redial addr i => some ((s.dialled addr).goto r (.store addr i s.opened.length))
      | _ => none
  | .redialFail r =>
      match s.route r with
      | .redial _ _ => some (s.goto r (.returned none))
      | _ => none
  | .store r =>
      match s.route r, s.mu with
      | .store addr i pc, none =>
          if i < (s.conns addr).length then
            some { s.goto r (.unlockStored pc) with
              mu := some r
              conns := Function.update s.conns addr ((s.conns addr).set i pc) }
          else some { s.goto r .panicked with mu := some r }
      | _, _ => none
  | .refresh t => some { s with topo := some t }
  | .die pc =>
      if pc < s.opened.length then some { s with dead := Function.update s.dead pc true } else none

/-- What `newRostamPipe` leaves. -/
def Config.initial (cfg : Config ι) : State ι where
  topo := some cfg.topo
  conns _ := []
  mu := none
  rr := 0
  opened := []
  dead _ := false
  route _ := .idle

def Config.system (cfg : Config ι) : System (State ι) (Action ι) :=
  .ofStep (fun s => s = cfg.initial) cfg.step

instance (cfg : Config ι) (s : State ι) (a : Action ι) : Decidable (cfg.system.enabled s a) :=
  inferInstanceAs (Decidable ((cfg.step s a).isSome = true))

/-! ### What a step can do -/

/-- The steps with their guards. -/
inductive Step (cfg : Config ι) (s : State ι) : Action ι → State ι → Prop
  | call {r : ι} (hr : s.route r = .idle) : Step cfg s (.call r) (s.goto r .load)
  | load {r : ι} (hr : s.route r = .load) :
      Step cfg s (.load r) (s.goto r (cfg.target (cfg.key r) s.topo))
  | lockNil {r : ι} {addr : String} (hr : s.route r = .lock addr) (hmu : s.mu = none)
      (hpcs : s.conns addr = []) :
      Step cfg s (.lock r) { s.goto r (.dialing addr []) with mu := some r }
  | lock {r : ι} {addr : String} (hr : s.route r = .lock addr) (hmu : s.mu = none)
      (hpcs : s.conns addr ≠ []) :
      Step cfg s (.lock r)
        { s.goto r (.unlock addr (s.conns addr).length) with mu := some r }
  | dialOk {r : ι} {addr : String} {pcs : List ℕ} (hr : s.route r = .dialing addr pcs)
      (hlt : pcs.length < cfg.perNode) :
      Step cfg s (.dialOk r)
        ((s.dialled addr).goto r (.dialing addr (pcs ++ [s.opened.length])))
  | dialFail {r : ι} {addr : String} {pcs : List ℕ} (hr : s.route r = .dialing addr pcs)
      (hlt : pcs.length < cfg.perNode) : Step cfg s (.dialFail r) (s.goto r .unlockNil)
  | publish {r : ι} {addr : String} {pcs : List ℕ} (hr : s.route r = .dialing addr pcs)
      (hge : cfg.perNode ≤ pcs.length) :
      Step cfg s (.publish r)
        { s.goto r (.unlock addr pcs.length) with conns := Function.update s.conns addr pcs }
  | unlockNil {r : ι} (hr : s.route r = .unlockNil) :
      Step cfg s (.unlock r) { s.goto r (.returned none) with mu := none }
  | unlock {r : ι} {addr : String} {n : ℕ} (hr : s.route r = .unlock addr n) :
      Step cfg s (.unlock r) { s.goto r (.pick addr n) with mu := none }
  | unlockStored {r : ι} {pc : ℕ} (hr : s.route r = .unlockStored pc) :
      Step cfg s (.unlock r) { s.goto r (.returned (some pc)) with mu := none }
  | pickPanic {r : ι} {addr : String} {n : ℕ} (hr : s.route r = .pick addr n)
      (hi : slotOf (s.rr + 1) n = none) :
      Step cfg s (.pick r) { s.goto r .panicked with rr := s.rr + 1 }
  | pick {r : ι} {addr : String} {n : ℕ} {i : ℤ} (hr : s.route r = .pick addr n)
      (hi : slotOf (s.rr + 1) n = some i) :
      Step cfg s (.pick r) { s.goto r (.check addr i) with rr := s.rr + 1 }
  | checkPanic {r : ι} {addr : String} {i : ℤ} (hr : s.route r = .check addr i)
      (hi : slotAt (s.conns addr) i = none) : Step cfg s (.check r) (s.goto r .panicked)
  | checkDead {r : ι} {addr : String} {i : ℤ} {pc : ℕ} (hr : s.route r = .check addr i)
      (hi : slotAt (s.conns addr) i = some pc) (hdead : s.dead pc = true) :
      Step cfg s (.check r) (s.goto r (.redial addr i.toNat))
  | checkLive {r : ι} {addr : String} {i : ℤ} {pc : ℕ} (hr : s.route r = .check addr i)
      (hi : slotAt (s.conns addr) i = some pc) (hdead : s.dead pc = false) :
      Step cfg s (.check r) (s.goto r (.read addr i.toNat))
  | readPanic {r : ι} {addr : String} {i : ℕ} (hr : s.route r = .read addr i)
      (hi : (s.conns addr)[i]? = none) : Step cfg s (.read r) (s.goto r .panicked)
  | read {r : ι} {addr : String} {i pc : ℕ} (hr : s.route r = .read addr i)
      (hi : (s.conns addr)[i]? = some pc) : Step cfg s (.read r) (s.goto r (.returned (some pc)))
  | redialOk {r : ι} {addr : String} {i : ℕ} (hr : s.route r = .redial addr i) :
      Step cfg s (.redialOk r) ((s.dialled addr).goto r (.store addr i s.opened.length))
  | redialFail {r : ι} {addr : String} {i : ℕ} (hr : s.route r = .redial addr i) :
      Step cfg s (.redialFail r) (s.goto r (.returned none))
  | store {r : ι} {addr : String} {i pc : ℕ} (hr : s.route r = .store addr i pc)
      (hmu : s.mu = none) (hi : i < (s.conns addr).length) :
      Step cfg s (.store r) { s.goto r (.unlockStored pc) with
        mu := some r
        conns := Function.update s.conns addr ((s.conns addr).set i pc) }
  | storePanic {r : ι} {addr : String} {i pc : ℕ} (hr : s.route r = .store addr i pc)
      (hmu : s.mu = none) (hi : (s.conns addr).length ≤ i) :
      Step cfg s (.store r) { s.goto r .panicked with mu := some r }
  | refresh (t : Topology) : Step cfg s (.refresh t) { s with topo := some t }
  | die {pc : ℕ} (hpc : pc < s.opened.length) :
      Step cfg s (.die pc) { s with dead := Function.update s.dead pc true }

variable {cfg : Config ι} {s s' : State ι} {a : Action ι}

theorem Config.step_cases (h : cfg.step s a = some s') : Step cfg s a s' := by
  cases a with
  | call r =>
      simp only [Config.step] at h
      split at h <;> cases h
      exact .call ‹_›
  | load r =>
      simp only [Config.step] at h
      split at h <;> cases h
      exact .load ‹_›
  | lock r =>
      simp only [Config.step] at h
      split at h <;> cases h
      rename_i addr hr hmu
      by_cases hpcs : s.conns addr = []
      · simpa [hpcs] using Step.lockNil hr hmu hpcs
      · simpa [hpcs] using Step.lock hr hmu hpcs
  | dialOk r =>
      simp only [Config.step] at h
      split at h
      · split at h <;> cases h
        exact .dialOk ‹_› ‹_›
      · cases h
  | dialFail r =>
      simp only [Config.step] at h
      split at h
      · split at h <;> cases h
        exact .dialFail ‹_› ‹_›
      · cases h
  | publish r =>
      simp only [Config.step] at h
      split at h
      · split at h <;> cases h
        exact .publish ‹_› (by omega)
      · cases h
  | unlock r =>
      simp only [Config.step] at h
      split at h <;> cases h
      · exact .unlockNil ‹_›
      · exact .unlock ‹_›
      · exact .unlockStored ‹_›
  | pick r =>
      simp only [Config.step] at h
      split at h <;> cases h
      split
      · exact .pickPanic ‹_› ‹_›
      · exact .pick ‹_› ‹_›
  | check r =>
      simp only [Config.step] at h
      split at h <;> cases h
      split
      · exact .checkPanic ‹_› ‹_›
      · rename_i addr i hr _ pc hi
        cases hdead : s.dead pc with
        | false => simpa using Step.checkLive hr hi hdead
        | true => simpa using Step.checkDead hr hi hdead
  | read r =>
      simp only [Config.step] at h
      split at h <;> cases h
      split
      · exact .readPanic ‹_› ‹_›
      · exact .read ‹_› ‹_›
  | redialOk r =>
      simp only [Config.step] at h
      split at h <;> cases h
      exact .redialOk ‹_›
  | redialFail r =>
      simp only [Config.step] at h
      split at h <;> cases h
      exact .redialFail ‹_›
  | store r =>
      simp only [Config.step] at h
      split at h
      · split at h <;> cases h
        · exact .store ‹_› ‹_› ‹_›
        · exact .storePanic ‹_› ‹_› (by omega)
      · cases h
  | refresh t =>
      cases h
      exact .refresh t
  | die pc =>
      simp only [Config.step] at h
      split at h <;> cases h
      exact .die ‹_›

/-! ### Lists and slots -/

/-- What holds of a call at `pc`. -/
def Config.PcShape (cfg : Config ι) (s : State ι) (r : ι) : RoutePc → Prop
  | .dialing addr pcs =>
      s.mu = some r ∧ s.conns addr = [] ∧ pcs.length ≤ cfg.perNode.toNat
  | .unlockNil | .unlockStored _ => s.mu = some r
  | .unlock addr n =>
      s.mu = some r ∧ n = cfg.perNode.toNat ∧ (s.conns addr).length = cfg.perNode.toNat
  | .pick addr n => n = cfg.perNode.toNat ∧ (s.conns addr).length = cfg.perNode.toNat
  | .check addr _ => (s.conns addr).length = cfg.perNode.toNat
  | .read addr i | .redial addr i | .store addr i _ => i < (s.conns addr).length
  | .idle | .load | .lock _ | .returned _ | .panicked => True

structure Shape (cfg : Config ι) (s : State ι) : Prop where
  lists : ∀ addr, s.conns addr = [] ∨ (s.conns addr).length = cfg.perNode.toNat
  calls : ∀ r, cfg.PcShape s r (s.route r)

/-- No list changes its length, unless it was nil and gets its connections. -/
def Config.SameLengths (cfg : Config ι) (s s' : State ι) : Prop :=
  ∀ addr, (s'.conns addr).length = (s.conns addr).length ∨
    (s.conns addr = [] ∧ (s'.conns addr).length = cfg.perNode.toNat)

omit [DecidableEq ι] in
theorem Config.SameLengths.update {addr : String} {pcs : List ℕ}
    (hconns : s'.conns = Function.update s.conns addr pcs)
    (h : pcs.length = (s.conns addr).length ∨
      (s.conns addr = [] ∧ pcs.length = cfg.perNode.toNat)) : cfg.SameLengths s s' := by
  rw [Config.SameLengths, hconns]
  exact (Function.forall_update_iff s.conns fun addr pcs =>
    pcs.length = (s.conns addr).length ∨ (s.conns addr = [] ∧ pcs.length = cfg.perNode.toNat)).mpr
      ⟨h, fun _ _ => Or.inl rfl⟩

omit [DecidableEq ι] in
theorem Config.SameLengths.of_eq (h : s'.conns = s.conns) : cfg.SameLengths s s' :=
  fun _ => Or.inl (by rw [h])

variable {r : ι} {pc : RoutePc}

omit [DecidableEq ι] in
/-- Somebody else's step leaves a call its lock, its list and its slot. -/
theorem Config.PcShape.frame (h : cfg.PcShape s r pc)
    (hmu : s.mu = some r → s'.mu = some r ∧ s'.conns = s.conns)
    (hlen : cfg.SameLengths s s') : cfg.PcShape s' r pc := by
  cases pc with
  | dialing addr pcs =>
      obtain ⟨hr, hnil, hpcs⟩ := h
      exact ⟨(hmu hr).1, by rw [(hmu hr).2, hnil], hpcs⟩
  | unlockNil => exact (hmu h).1
  | unlockStored pc => exact (hmu h).1
  | unlock addr n =>
      obtain ⟨hr, hn, hconns⟩ := h
      exact ⟨(hmu hr).1, hn, by rw [(hmu hr).2, hconns]⟩
  | pick addr n =>
      obtain ⟨hn, hconns⟩ := h
      rcases hlen addr with heq | ⟨-, heq⟩
      · exact ⟨hn, heq.trans hconns⟩
      · exact ⟨hn, heq⟩
  | check addr i =>
      rcases hlen addr with heq | ⟨-, heq⟩
      · exact heq.trans h
      · exact heq
  | read addr i | redial addr i | store addr i pc =>
      have hi : i < (s.conns addr).length := h
      rcases hlen addr with heq | ⟨hnil, -⟩
      · exact hi.trans_eq heq.symm
      · simp [hnil] at hi
  | idle | load | lock addr | returned pc | panicked => trivial

theorem Shape.moved (h : Shape cfg s) (hroute : s'.route = Function.update s.route r pc)
    (hr : cfg.PcShape s' r pc)
    (hmu : ∀ r' ≠ r, s.mu = some r' → s'.mu = some r' ∧ s'.conns = s.conns)
    (hlen : cfg.SameLengths s s') : Shape cfg s' := by
  refine ⟨fun addr => ?_, ?_⟩
  · rcases hlen addr with heq | ⟨-, heq⟩
    · rw [← List.length_eq_zero_iff, heq, List.length_eq_zero_iff]
      exact h.lists addr
    · exact Or.inr heq
  · rw [hroute]
    refine (Function.forall_update_iff s.route (cfg.PcShape s')).mpr ⟨hr, fun r' hr' => ?_⟩
    exact (h.calls r').frame (hmu r' hr') hlen

/-- A step that leaves the lock and the lists alone. -/
theorem Shape.goto (h : Shape cfg s) (hroute : s'.route = Function.update s.route r pc)
    (hr : cfg.PcShape s' r pc) (hmu : s'.mu = s.mu) (hconns : s'.conns = s.conns) :
    Shape cfg s' :=
  h.moved hroute hr (fun _ _ h' => ⟨hmu.trans h', hconns⟩) (.of_eq hconns)

/-- A step that takes the lock or gives it back, and leaves the lists alone. -/
theorem Shape.locked (h : Shape cfg s) (hroute : s'.route = Function.update s.route r pc)
    (hr : cfg.PcShape s' r pc) (hmu : s.mu = none ∨ s.mu = some r)
    (hconns : s'.conns = s.conns) : Shape cfg s' := by
  refine h.moved hroute hr (fun r' hr' hheld => ?_) (.of_eq hconns)
  rcases hmu with hmu | hmu
  · rw [hmu] at hheld
    cases hheld
  · rw [hmu] at hheld
    exact absurd (Option.some.inj hheld).symm hr'

omit [DecidableEq ι] in
theorem target_pcShape (cfg : Config ι) (s : State ι) (r : ι) (key : Bytes)
    (topo : Option Topology) : cfg.PcShape s r (cfg.target key topo) := by
  cases topo with
  | none => trivial
  | some t =>
      rw [Config.target]
      split
      · trivial
      · split
        · trivial
        · split <;> trivial

theorem slotAt_lt {pcs : List ℕ} {i : ℤ} {pc : ℕ} (h : slotAt pcs i = some pc) :
    i.toNat < pcs.length := by
  rw [slotAt] at h
  split at h
  · exact (List.getElem?_eq_some_iff.mp h).1
  · cases h

omit [DecidableEq ι] in
/-- A step of the environment. -/
theorem Shape.environment (h : Shape cfg s) (hroute : s'.route = s.route) (hmu : s'.mu = s.mu)
    (hconns : s'.conns = s.conns) : Shape cfg s' := by
  refine ⟨fun addr => by rw [hconns]; exact h.lists addr, fun r => ?_⟩
  rw [hroute]
  exact (h.calls r).frame (fun h' => ⟨hmu.trans h', hconns⟩) (.of_eq hconns)

omit [DecidableEq ι] in
theorem Shape.at (h : Shape cfg s) (hr : s.route r = pc) : cfg.PcShape s r pc := hr ▸ h.calls r

theorem Shape.step (h : Shape cfg s) (hstep : Step cfg s a s') : Shape cfg s' := by
  cases hstep with
  | call hr => exact h.goto rfl trivial rfl rfl
  | load hr => exact h.goto rfl (target_pcShape ..) rfl rfl
  | lockNil hr hmu hpcs => exact h.locked rfl ⟨rfl, hpcs, Nat.zero_le _⟩ (Or.inl hmu) rfl
  | lock hr hmu hpcs =>
      have hlen := (h.lists _).resolve_left hpcs
      exact h.locked rfl ⟨rfl, hlen, hlen⟩ (Or.inl hmu) rfl
  | dialOk hr hlt =>
      obtain ⟨hmu, hnil, -⟩ := h.at hr
      refine h.goto rfl ⟨hmu, hnil, ?_⟩ rfl rfl
      rw [List.length_append, List.length_singleton]
      omega
  | dialFail hr hlt => exact h.goto rfl (h.at hr).1 rfl rfl
  | @publish r addr pcs hr hge =>
      obtain ⟨hmu, hnil, hle⟩ := h.at hr
      have hlen : pcs.length = cfg.perNode.toNat := by omega
      refine h.moved rfl ⟨hmu, hlen, ?_⟩ (fun r' hr' hheld => ?_)
        (.update rfl (Or.inr ⟨hnil, hlen⟩))
      · simpa using hlen
      · exact absurd (Option.some.inj (hmu.symm.trans hheld)).symm hr'
  | unlockNil hr => exact h.locked rfl trivial (Or.inr (h.at hr)) rfl
  | unlock hr => exact h.locked rfl (h.at hr).2 (Or.inr (h.at hr).1) rfl
  | unlockStored hr => exact h.locked rfl trivial (Or.inr (h.at hr)) rfl
  | pick hr hi => exact h.goto rfl (h.at hr).2 rfl rfl
  | checkDead hr hi | checkLive hr hi => exact h.goto rfl (slotAt_lt hi) rfl rfl
  | redialOk hr => exact h.goto rfl (h.at hr) rfl rfl
  | pickPanic | checkPanic | readPanic | read | redialFail => exact h.goto rfl trivial rfl rfl
  | @store r addr i pc hr hmu hi =>
      refine h.moved rfl rfl (fun r' hr' hheld => ?_) (.update rfl (Or.inl List.length_set))
      rw [hmu] at hheld
      cases hheld
  | storePanic hr hmu hi => exact h.locked rfl trivial (Or.inl hmu) rfl
  | refresh | die => exact h.environment rfl rfl rfl

theorem shape_of_reachable (hs : cfg.system.Reachable s) : Shape cfg s := by
  refine hs.invariant (I := Shape cfg) ?_ ?_
  · rintro s rfl
    exact ⟨fun _ => Or.inl rfl, fun _ => trivial⟩
  · intro s a _ h ha
    exact h.step (Config.step_cases (System.step_of_enabled ha))

end RostamBench.Netkv.PipeRoute
