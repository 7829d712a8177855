import RostamBench.Netkv.PipeRouteSafety

/-!
Which of the connections that `route` opens `close` can still find.

A connection is handed from the call that dialled it to the map. Between the two it
is in the hands of the call (`Holds`), and while it is in neither place it has to be
dead, or `close` will not reach it. Two steps can drop a live one: a dial that fails
after earlier dials of the same loop have succeeded, and an assignment to a slot
whose connection another call has replaced meanwhile. `careful` is the condition on
the state before a step that this one does not; in a run of careful steps every
connection is tracked.
-/

namespace RostamBench.Netkv.PipeRoute

open Transition

variable {ι : Type*}

/-- Between its start and its return. -/
def RoutePc.InProgress : RoutePc → Prop
  | .idle | .returned _ | .panicked => False
  | .load | .lock _ | .dialing _ _ | .unlockNil | .unlock _ _ | .pick _ _ | .check _ _
  | .read _ _ | .redial _ _ | .store _ _ _ | .unlockStored _ => True

/-- The connection is dead or stored in `e.conns`. -/
def State.Tracked (s : State ι) (pc : ℕ) : Prop := s.dead pc = true ∨ ∃ addr, pc ∈ s.conns addr

/-! ### `close` -/

/-- `fail` of every connection of a list. -/
def failAll (dead : ℕ → Bool) (pcs : List ℕ) : ℕ → Bool :=
  pcs.foldl (fun dead pc => Function.update dead pc true) dead

/-- `close`; the entries are the addresses of the map in the order of its loop. -/
def State.close (s : State ι) (entries : List String) : State ι :=
  { s with dead := entries.foldl (fun dead addr => failAll dead (s.conns addr)) s.dead }

/-- The loop over the map comes to every address with connections. -/
def State.Ranges (s : State ι) (entries : List String) : Prop :=
  ∀ addr, s.conns addr ≠ [] → addr ∈ entries

theorem failAll_of_dead {dead : ℕ → Bool} {pc : ℕ} (h : dead pc = true) (pcs : List ℕ) :
    failAll dead pcs pc = true := by
  induction pcs generalizing dead with
  | nil => exact h
  | cons pc' pcs ih =>
      refine ih ?_
      by_cases heq : pc = pc'
      · subst heq
        exact Function.update_self ..
      · exact (Function.update_of_ne heq _ _).trans h

theorem failAll_of_mem (dead : ℕ → Bool) {pcs : List ℕ} {pc : ℕ} (h : pc ∈ pcs) :
    failAll dead pcs pc = true := by
  induction pcs generalizing dead with
  | nil => simp at h
  | cons pc' pcs ih =>
      rcases List.mem_cons.mp h with rfl | h
      · exact failAll_of_dead (Function.update_self ..) pcs
      · exact ih _ h

/-- A tracked connection is dead after `close`. -/
theorem State.Tracked.close {s : State ι} {pc : ℕ} (h : s.Tracked pc) {entries : List String}
    (hentries : s.Ranges entries) : (s.close entries).dead pc = true := by
  have hstay {dead : ℕ → Bool} (h : dead pc = true) (entries : List String) :
      entries.foldl (fun dead addr => failAll dead (s.conns addr)) dead pc = true := by
    induction entries generalizing dead with
    | nil => exact h
    | cons addr entries ih => exact ih (failAll_of_dead h _)
  have hreach {addr : String} (haddr : pc ∈ s.conns addr) {entries : List String}
      (hmem : addr ∈ entries) (dead : ℕ → Bool) :
      entries.foldl (fun dead addr => failAll dead (s.conns addr)) dead pc = true := by
    induction entries generalizing dead with
    | nil => simp at hmem
    | cons addr' entries ih =>
        rcases List.mem_cons.mp hmem with rfl | hmem
        · exact hstay (failAll_of_mem dead haddr) entries
        · exact ih hmem _
  rcases h with hdead | ⟨addr, haddr⟩
  · exact hstay hdead entries
  · exact hreach haddr (hentries addr (List.ne_nil_of_mem haddr)) s.dead

/-! ### Hands -/

/-- The call has dialled the connection and not stored it yet. -/
def RoutePc.Holds (pc : ℕ) : RoutePc → Prop
  | .dialing _ pcs => pc ∈ pcs
  | .store _ _ pc' => pc' = pc
  | .idle | .load | .lock _ | .unlockNil | .unlock _ _ | .pick _ _ | .check _ _ | .read _ _
  | .redial _ _ | .unlockStored _ | .returned _ | .panicked => False

/-- Every connection is tracked or in the hands of a call. -/
def TrackInv (s : State ι) : Prop :=
  ∀ pc < s.opened.length, s.Tracked pc ∨ ∃ r, (s.route r).Holds pc

/-- A dial that fails drops dead connections only, and a connection is stored over
a dead one. -/
def careful (s : State ι) : Action ι → Bool
  | .dialFail r =>
      match s.route r with
      | .dialing _ pcs => pcs.all s.dead
      | _ => true
  | .store r =>
      match s.route r with
      | .store addr i _ => ((s.conns addr)[i]?).all s.dead
      | _ => true
  | _ => true

variable [DecidableEq ι] {cfg : Config ι} {s s' : State ι} {a : Action ι} {r : ι} {pc : RoutePc}

theorem TrackInv.moved (h : TrackInv s) (hroute : s'.route = Function.update s.route r pc)
    (htracked : ∀ c, s.Tracked c → s'.Tracked c)
    (hheld : ∀ c, (s.route r).Holds c → s'.Tracked c ∨ pc.Holds c)
    (hnew : ∀ c, s.opened.length ≤ c → c < s'.opened.length → pc.Holds c) : TrackInv s' := by
  intro c hc
  by_cases hold : c < s.opened.length
  · rcases h c hold with htr | ⟨r', hr'⟩
    · exact Or.inl (htracked c htr)
    · by_cases heq : r' = r
      · subst heq
        rcases hheld c hr' with htr | hholds
        · exact Or.inl htr
        · exact Or.inr ⟨r', by rw [hroute, Function.update_self]; exact hholds⟩
      · exact Or.inr ⟨r', by rw [hroute, Function.update_of_ne heq]; exact hr'⟩
  · refine Or.inr ⟨r, ?_⟩
    rw [hroute, Function.update_self]
    exact hnew c (Nat.not_lt.mp hold) hc

/-- A step of a call that holds nothing and dials nothing. -/
theorem TrackInv.goto (h : TrackInv s) (hopened : s'.opened = s.opened)
    (hroute : s'.route = Function.update s.route r pc) (hdead : s'.dead = s.dead)
    (hconns : s'.conns = s.conns) (hheld : ∀ c, ¬ (s.route r).Holds c) : TrackInv s' := by
  refine h.moved hroute ?_ ?_ ?_
  · intro c hc
    rwa [State.Tracked, hdead, hconns]
  · exact fun c hc => absurd hc (hheld c)
  · intro c hle hlt
    rw [hopened] at hlt
    omega

omit [DecidableEq ι] in
theorem length_dialled (s : State ι) (addr : String) :
    (s.dialled addr).opened.length = s.opened.length + 1 := by
  simp [State.dialled]

theorem mem_update_self {conns : String → List ℕ} {addr : String} {pcs : List ℕ} {c : ℕ}
    (h : c ∈ pcs) : c ∈ Function.update conns addr pcs addr := by
  rwa [Function.update_self]

theorem mem_update_of_ne {conns : String → List ℕ} {addr addr' : String} {pcs : List ℕ} {c : ℕ}
    (hne : addr' ≠ addr) (h : c ∈ conns addr') : c ∈ Function.update conns addr pcs addr' := by
  rwa [Function.update_of_ne hne]

theorem mem_set_or {pcs : List ℕ} {i c : ℕ} (h : c ∈ pcs) (pc : ℕ) :
    c ∈ pcs.set i pc ∨ pcs[i]? = some c := by
  obtain ⟨j, hj, rfl⟩ := List.mem_iff_getElem.mp h
  by_cases hij : i = j
  · subst hij
    exact Or.inr (List.getElem?_eq_getElem hj)
  · refine Or.inl (List.mem_iff_getElem.mpr ⟨j, by simpa using hj, ?_⟩)
    rw [List.getElem_set_ne hij]

theorem TrackInv.step (h : TrackInv s) (hshape : Shape cfg s) (hstep : Step cfg s a s')
    (hcareful : careful s a = true) : TrackInv s' := by
  cases hstep with
  | call hr | load hr | lockNil hr | lock hr | unlockNil hr | unlock hr | unlockStored hr
  | pickPanic hr | pick hr | checkPanic hr | checkDead hr | checkLive hr | readPanic hr | read hr
  | redialFail hr =>
      exact h.goto rfl rfl rfl rfl fun c => by simp [hr, RoutePc.Holds]
  | @dialOk r addr pcs hr hlt =>
      refine h.moved rfl (fun c hc => hc) (fun c hc => ?_) (fun c hle hlt => ?_)
      · rw [hr] at hc
        exact Or.inr (List.mem_append_left _ hc)
      · change c < (s.dialled addr).opened.length at hlt
        rw [length_dialled] at hlt
        obtain rfl : c = s.opened.length := by omega
        exact List.mem_append_right _ List.mem_cons_self
  | @dialFail r addr pcs hr hlt =>
      have hdead : ∀ c ∈ pcs, s.dead c = true := by simpa [careful, hr] using hcareful
      refine h.moved rfl (fun c hc => hc) (fun c hc => ?_)
        (fun c hle hlt => absurd hlt (Nat.not_lt.mpr hle))
      rw [hr] at hc
      exact Or.inl (Or.inl (hdead c hc))
  | @publish r addr pcs hr hge =>
      obtain ⟨-, hnil, -⟩ := hshape.at hr
      refine h.moved rfl ?_ ?_ (fun c hle hlt => absurd hlt (Nat.not_lt.mpr hle))
      · rintro c (hdead | ⟨addr', hc⟩)
        · exact Or.inl hdead
        · -- The list that is replaced is nil.
          have hne : addr' ≠ addr := by
            rintro rfl
            simp [hnil] at hc
          exact Or.inr ⟨addr', mem_update_of_ne hne hc⟩
      · intro c hc
        rw [hr] at hc
        exact Or.inl (Or.inr ⟨addr, mem_update_self hc⟩)
  | @redialOk r addr i hr =>
      refine h.moved rfl (fun c hc => hc) (fun c hc => ?_) (fun c hle hlt => ?_)
      · rw [hr] at hc
        exact hc.elim
      · change c < (s.dialled addr).opened.length at hlt
        rw [length_dialled] at hlt
        exact (by omega : s.opened.length = c)
  | @store r addr i pc hr hmu hi =>
      refine h.moved rfl ?_ ?_ (fun c hle hlt => absurd hlt (Nat.not_lt.mpr hle))
      · rintro c (hdead | ⟨addr', hc⟩)
        · exact Or.inl hdead
        · by_cases haddr : addr' = addr
          · subst haddr
            rcases mem_set_or (i := i) hc pc with hc | hold
            · exact Or.inr ⟨addr', mem_update_self hc⟩
            · -- What is overwritten is dead.
              have hdead : s.dead c = true := by simpa [careful, hr, hold] using hcareful
              exact Or.inl hdead
          · exact Or.inr ⟨addr', mem_update_of_ne haddr hc⟩
      · intro c hc
        rw [hr] at hc
        obtain rfl : pc = c := hc
        exact Or.inl (Or.inr ⟨addr, mem_update_self (List.mem_set hi pc)⟩)
  | storePanic hr hmu hi => exact absurd (hshape.at hr) (Nat.not_lt.mpr hi)
  | refresh => exact h
  | @die pc hpc =>
      intro c hc
      refine (h c hc).imp_left ?_
      rintro (hdead | hmem)
      · refine Or.inl ?_
        by_cases heq : c = pc
        · subst heq
          exact Function.update_self ..
        · exact (Function.update_of_ne heq _ _).trans hdead
      · exact Or.inr hmem

/-! ### Careful runs -/

theorem trackInv_of_reachable
    (hs : (cfg.system.restrict fun s a => careful s a = true).Reachable s) :
    Shape cfg s ∧ TrackInv s := by
  refine hs.invariant (I := fun s => Shape cfg s ∧ TrackInv s) ?_ ?_
  · rintro s rfl
    exact ⟨⟨fun _ => Or.inl rfl, fun _ => trivial⟩, fun pc hpc => absurd hpc (Nat.not_lt_zero pc)⟩
  · rintro s a - ⟨hshape, h⟩ ⟨ha, hcareful⟩
    have hstep := Config.step_cases (System.step_of_enabled ha)
    exact ⟨hshape.step hstep, h.step hshape hstep hcareful⟩

/-- In every run of careful steps, whenever no call is in progress, every connection
that was ever dialled is dead or stored, and `close` leaves all of them dead. -/
theorem connections_tracked
    (hs : (cfg.system.restrict fun s a => careful s a = true).Reachable s)
    (hidle : ∀ r, ¬ (s.route r).InProgress) :
    ∀ pc < s.opened.length, s.Tracked pc ∧
      ∀ entries, s.Ranges entries → (s.close entries).dead pc = true := by
  intro pc hpc
  have htracked : s.Tracked pc := by
    rcases (trackInv_of_reachable hs).2 pc hpc with htracked | ⟨r, hholds⟩
    · exact htracked
    · -- Who holds a connection is in progress.
      have hnot := hidle r
      cases hr : s.route r <;> rw [hr] at hholds hnot
      case dialing | store => exact absurd trivial hnot
      all_goals exact hholds.elim
  exact ⟨htracked, fun entries hentries => htracked.close hentries⟩

/-- After the first call its other connection dies, and the second call replaces
it. -/
def replaceDead : List (Action Bool) :=
  firstCall ++ [.die 0, .call true, .load true, .lock true, .unlock true, .pick true,
    .check true, .redialOk true, .store true, .unlock true]

theorem connections_tracked_replaced :
    ∃ s, ((oneNode 2).system.restrict fun s a => careful s a = true).Run replaceDead s ∧
      s.opened.length = 3 ∧ s.Tracked 2 ∧
      ∀ entries, s.Ranges entries → (s.close entries).dead 2 = true := by
  have hreplay : (((oneNode 2).system.restrict fun s a => careful s a = true).replay
      (oneNode 2).initial replaceDead).map
      (fun s => (s.opened.length, s.route false, s.route true)) =
      some (3, .returned (some 1), .returned (some 2)) := by decide +kernel
  obtain ⟨s, hrun, hs⟩ := System.run_of_replay hreplay rfl
  obtain ⟨hopened, hfalse, htrue⟩ : s.opened.length = 3 ∧
      s.route false = .returned (some 1) ∧ s.route true = .returned (some 2) := by simpa using hs
  have hidle : ∀ r, ¬ (s.route r).InProgress := by
    rintro (_ | _)
    · rw [hfalse]
      exact id
    · rw [htrue]
      exact id
  exact ⟨s, hrun, hopened, connections_tracked hrun.reachable hidle 2 (by omega)⟩

/-- The second of two dials fails: the first connection is live and nowhere. -/
theorem partial_dial_leaks :
    ∃ evs s, (oneNode 2).system.Run evs s ∧ (∀ r, ¬ (s.route r).InProgress) ∧
      0 < s.opened.length ∧ ¬ s.Tracked 0 := by
  have hreplay : ((oneNode 2).system.replay (oneNode 2).initial
      [.call false, .load false, .lock false, .dialOk false, .dialFail false,
        .unlock false]).map
      (fun s => (s.opened, s.dead 0, s.conns "n1:7000", s.route false, s.route true)) =
      some (["n1:7000"], false, [], .returned none, .idle) := by decide +kernel
  obtain ⟨s, hrun, hs⟩ := System.run_of_replay hreplay rfl
  obtain ⟨hopened, hdead, hconns, hfalse, htrue⟩ : s.opened = ["n1:7000"] ∧ s.dead 0 = false ∧
      s.conns "n1:7000" = [] ∧ s.route false = .returned none ∧ s.route true = .idle := by
    simpa using hs
  refine ⟨_, s, hrun, ?_, by simp [hopened], ?_⟩
  · rintro (_ | _)
    · rw [hfalse]
      exact id
    · rw [htrue]
      exact id
  · rintro (hdead' | ⟨addr, haddr⟩)
    · simp [hdead] at hdead'
    · -- It could only be stored under the address it was dialled to.
      have haddr' := (history_of_run hrun).1.conns addr 0 haddr
      rw [hopened] at haddr'
      obtain rfl : "n1:7000" = addr := by simpa using haddr'
      simp [hconns] at haddr

end RostamBench.Netkv.PipeRoute
