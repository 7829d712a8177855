import RostamBench.Netkv.PipeRoute
import Mathlib.Data.List.Perm.Subperm

/-!
Where `route` sends a key, and that it does not panic on the way.

A call takes one look at the topology, and what it returns was dialled to the leader
it found then (`Routed`). Indexing by the hash is in range because the number of
shards is checked against the length of the list before it. Indexing by the
round-robin counter is in range as long as the counter is not negative as an `int`,
which takes `2 ^ 63` calls (`Counted`), and as long as there is something to index:
the flag is not checked, and with no connection per node the remainder by zero
panics.
-/

namespace RostamBench.Netkv.PipeRoute

open BigEndian Transition

variable {ι : Type*}

/-! ### The leader -/

/-- `addr` is `Leaders[xxhash(key) mod NumShards]`. -/
def Config.LeaderOf (cfg : Config ι) (key : Bytes) (t : Topology) (addr : String) : Prop :=
  t.leaders[(cfg.xxhash key).toNat % t.numShards.toInt.toNat]? = some addr

theorem toNat_toUInt64_of_toInt {x : Int64} {n : ℕ} (h : (n : ℤ) = x.toInt) :
    x.toUInt64.toNat = n := by
  have hx : 0 ≤ x := by
    rw [Int64.le_iff_toInt_le, ← h]
    simp
  rw [Int64.toNat_toUInt64_of_le hx, Int64.toNatClampNeg, ← h, Int.toNat_natCast]

/-- A look at the topology ends the call or gives it the leader's address. -/
theorem target_cases (cfg : Config ι) (key : Bytes) (t : Topology) :
    cfg.target key (some t) = .returned none ∨
      ∃ addr, cfg.target key (some t) = .lock addr ∧ cfg.LeaderOf key t addr := by
  rw [Config.target]
  split
  · exact Or.inl rfl
  · rename_i hcheck
    obtain ⟨hzero, hlen⟩ := not_or.mp hcheck
    have hlen : (t.leaders.length : ℤ) = t.numShards.toInt := not_not.mp hlen
    have hpos : 0 < t.leaders.length := by
      refine Nat.pos_of_ne_zero fun hnil => hzero (Int64.toInt_inj.mp ?_)
      rw [← hlen, hnil]
      rfl
    have hidx : (cfg.xxhash key % t.numShards.toUInt64).toNat =
        (cfg.xxhash key).toNat % t.numShards.toInt.toNat := by
      rw [UInt64.toNat_mod, toNat_toUInt64_of_toInt hlen, ← hlen, Int.toNat_natCast]
    have hlt : (cfg.xxhash key).toNat % t.numShards.toInt.toNat < t.leaders.length := by
      rw [← hlen, Int.toNat_natCast]
      exact Nat.mod_lt _ hpos
    rw [hidx, List.getElem?_eq_getElem hlt]
    by_cases hempty : t.leaders[(cfg.xxhash key).toNat % t.numShards.toInt.toNat] = ""
    · exact Or.inl (if_pos hempty)
    · exact Or.inr ⟨_, if_neg hempty, List.getElem?_eq_getElem hlt⟩

/-! ### Where a call goes -/

/-- The topology after a run that did `evs`. -/
def Config.topoAfter (cfg : Config ι) (evs : List (Action ι)) : Topology :=
  evs.foldl (fun t e => match e with
    | .refresh t => t
    | _ => t) cfg.topo

/-- `addr` is the leader of the key of call `r`, by the topology that was current
when the call, once started, took a step of its own. -/
def Config.LeaderDuring (cfg : Config ι) (evs : List (Action ι)) (r : ι) (addr : String) : Prop :=
  ∃ l₁ l₂, evs = l₁ ++ .load r :: l₂ ∧ .call r ∈ l₁ ∧
    cfg.LeaderOf (cfg.key r) (cfg.topoAfter l₁) addr

/-- The call goes to the leader's address, and what it holds was dialled there. -/
def Config.Routed (cfg : Config ι) (evs : List (Action ι)) (opened : List String) (r : ι) :
    RoutePc → Prop
  | .load => .call r ∈ evs
  | .lock addr | .unlock addr _ | .pick addr _ | .check addr _ | .read addr _
  | .redial addr _ => cfg.LeaderDuring evs r addr
  | .dialing addr pcs => cfg.LeaderDuring evs r addr ∧ ∀ pc ∈ pcs, opened[pc]? = some addr
  | .store addr _ pc => cfg.LeaderDuring evs r addr ∧ opened[pc]? = some addr
  | .unlockStored pc | .returned (some pc) =>
      ∃ addr, cfg.LeaderDuring evs r addr ∧ opened[pc]? = some addr
  | .idle | .unlockNil | .returned none | .panicked => True

structure RouteInv (cfg : Config ι) (evs : List (Action ι)) (s : State ι) : Prop where
  topo : s.topo = some (cfg.topoAfter evs)
  conns : ∀ addr, ∀ pc ∈ s.conns addr, s.opened[pc]? = some addr
  calls : ∀ r, cfg.Routed evs s.opened r (s.route r)

variable {cfg : Config ι} {evs : List (Action ι)} {a : Action ι} {s s' : State ι} {r : ι}
  {addr : String} {pc : RoutePc} {n : ℕ}

theorem Config.LeaderDuring.append (h : cfg.LeaderDuring evs r addr) (a : Action ι) :
    cfg.LeaderDuring (evs ++ [a]) r addr := by
  obtain ⟨l₁, l₂, rfl, hcall, hleader⟩ := h
  exact ⟨l₁, l₂ ++ [a], by simp, hcall, hleader⟩

/-- More events and more connections leave a call where it was. -/
theorem Config.Routed.append {opened : List String} (h : cfg.Routed evs opened r pc)
    (a : Action ι) (more : List String) : cfg.Routed (evs ++ [a]) (opened ++ more) r pc := by
  have hopened {pc : ℕ} {addr : String} (h : opened[pc]? = some addr) :
      (opened ++ more)[pc]? = some addr := by
    rw [List.getElem?_append_left (List.getElem?_eq_some_iff.mp h).1, h]
  cases pc with
  | load => exact List.mem_append_left _ h
  | lock | unlock | pick | check | read | redial => exact Config.LeaderDuring.append h a
  | dialing addr pcs => exact ⟨h.1.append a, fun pc hpc => hopened (h.2 pc hpc)⟩
  | store addr i pc => exact ⟨h.1.append a, hopened h.2⟩
  | unlockStored pc =>
      obtain ⟨addr, hleader, hpc⟩ := h
      exact ⟨addr, hleader.append a, hopened hpc⟩
  | returned pc =>
      cases pc with
      | none => trivial
      | some pc =>
          obtain ⟨addr, hleader, hpc⟩ := h
          exact ⟨addr, hleader.append a, hopened hpc⟩
  | idle | unlockNil | panicked => trivial

/-- An action that is not a refresh. -/
def Action.ofCall : Action ι → Option ι
  | .call r | .load r | .lock r | .dialOk r | .dialFail r | .publish r | .unlock r | .pick r
  | .check r | .read r | .redialOk r | .redialFail r | .store r => some r
  | .refresh _ | .die _ => none

theorem topoAfter_append (ha : a.ofCall = some r) :
    cfg.topoAfter (evs ++ [a]) = cfg.topoAfter evs := by
  rw [Config.topoAfter, List.foldl_append]
  cases a <;> first | rfl | cases ha

variable [DecidableEq ι]

theorem RouteInv.moved (h : RouteInv cfg evs s) (ha : a.ofCall = some r) {more : List String}
    (hopened : s'.opened = s.opened ++ more) (hroute : s'.route = Function.update s.route r pc)
    (hr : cfg.Routed (evs ++ [a]) s'.opened r pc) (htopo : s'.topo = s.topo)
    (hconns : ∀ addr, ∀ pc ∈ s'.conns addr, pc ∈ s.conns addr ∨ s'.opened[pc]? = some addr) :
    RouteInv cfg (evs ++ [a]) s' := by
  refine ⟨?_, fun addr pc hpc => ?_, ?_⟩
  · rw [htopo, topoAfter_append ha]
    exact h.topo
  · rcases hconns addr pc hpc with hold | hnew
    · have hpc := h.conns addr pc hold
      rw [hopened, List.getElem?_append_left (List.getElem?_eq_some_iff.mp hpc).1, hpc]
    · exact hnew
  · rw [hroute]
    refine (Function.forall_update_iff s.route (cfg.Routed (evs ++ [a]) s'.opened)).mpr
      ⟨hr, fun r' _ => ?_⟩
    rw [hopened]
    exact (h.calls r').append a more

/-- A step that sets the list of an address. -/
theorem RouteInv.listed (h : RouteInv cfg evs s) (ha : a.ofCall = some r)
    (hopened : s'.opened = s.opened) (hroute : s'.route = Function.update s.route r pc)
    (hr : cfg.Routed (evs ++ [a]) s.opened r pc) (htopo : s'.topo = s.topo) {pcs : List ℕ}
    (hconns : s'.conns = Function.update s.conns addr pcs)
    (hpcs : ∀ c ∈ pcs, c ∈ s.conns addr ∨ s.opened[c]? = some addr) :
    RouteInv cfg (evs ++ [a]) s' := by
  refine h.moved ha (hopened.trans (List.append_nil _).symm) hroute ?_ htopo ?_
  · rw [hopened]
    exact hr
  · rw [hconns, hopened]
    exact (Function.forall_update_iff s.conns fun addr pcs =>
      ∀ c ∈ pcs, c ∈ s.conns addr ∨ s.opened[c]? = some addr).mpr
        ⟨hpcs, fun _ _ _ hc => Or.inl hc⟩

/-- A step that dials nothing and leaves the lists alone. -/
theorem RouteInv.goto (h : RouteInv cfg evs s) (ha : a.ofCall = some r)
    (hopened : s'.opened = s.opened) (hroute : s'.route = Function.update s.route r pc)
    (hr : cfg.Routed (evs ++ [a]) s.opened r pc) (htopo : s'.topo = s.topo)
    (hconns : s'.conns = s.conns) : RouteInv cfg (evs ++ [a]) s' := by
  refine h.moved ha (hopened.trans (List.append_nil _).symm) hroute ?_ htopo ?_
  · rw [hopened]
    exact hr
  · intro addr pc hpc
    rw [hconns] at hpc
    exact Or.inl hpc

omit [DecidableEq ι] in
theorem RouteInv.at (h : RouteInv cfg evs s) (hr : s.route r = pc) :
    cfg.Routed evs s.opened r pc := hr ▸ h.calls r

omit [DecidableEq ι] in
theorem RouteInv.after (h : RouteInv cfg evs s) (hr : s.route r = pc) (a : Action ι) :
    cfg.Routed (evs ++ [a]) s.opened r pc := by
  simpa using (h.at hr).append a []

omit [DecidableEq ι] in
/-- A connection that was just dialled. -/
theorem getElem?_opened (opened : List String) (addr : String) :
    (opened ++ [addr])[opened.length]? = some addr := by
  simp

theorem RouteInv.step (h : RouteInv cfg evs s) (hstep : Step cfg s a s') :
    RouteInv cfg (evs ++ [a]) s' := by
  cases hstep with
  | call hr => exact h.goto rfl rfl rfl (List.mem_append_right _ List.mem_cons_self) rfl rfl
  | @load r hr =>
      have hcalled : .call r ∈ evs := h.at hr
      refine h.goto rfl rfl rfl ?_ rfl rfl
      rw [h.topo]
      rcases target_cases cfg (cfg.key r) (cfg.topoAfter evs) with hnil | ⟨addr, hlock, hleader⟩
      · rw [hnil]
        trivial
      · rw [hlock]
        exact ⟨evs, [], rfl, hcalled, hleader⟩
  | lockNil hr => exact h.goto rfl rfl rfl ⟨h.after hr _, by simp⟩ rfl rfl
  | lock hr | unlock hr | pick hr | checkDead hr | checkLive hr =>
      exact h.goto rfl rfl rfl (h.after hr _) rfl rfl
  | @dialOk r addr pcs hr hlt =>
      refine h.moved rfl rfl rfl ?_ rfl (fun _ _ hpc => Or.inl hpc)
      obtain ⟨hleader, hpcs⟩ := (h.at hr).append (.dialOk r) [addr]
      refine ⟨hleader, fun pc hpc => ?_⟩
      rcases List.mem_append.mp hpc with hold | hnew
      · exact hpcs pc hold
      · rw [List.mem_singleton.mp hnew]
        exact getElem?_opened ..
  | dialFail | unlockNil | pickPanic | checkPanic | readPanic | redialFail | storePanic =>
      exact h.goto rfl rfl rfl trivial rfl rfl
  | @publish r addr pcs hr hge =>
      obtain ⟨hleader, hpcs⟩ := h.after hr (.publish r)
      exact h.listed rfl rfl rfl hleader rfl rfl fun pc hpc => Or.inr (hpcs pc hpc)
  | unlockStored hr => exact h.goto rfl rfl rfl (h.after hr _) rfl rfl
  | @read r addr i pc hr hi =>
      refine h.goto rfl rfl rfl ⟨addr, h.after hr _, ?_⟩ rfl rfl
      exact h.conns addr pc (List.mem_of_getElem? hi)
  | @redialOk r addr i hr =>
      refine h.moved rfl rfl rfl ⟨?_, getElem?_opened ..⟩ rfl (fun _ _ hpc => Or.inl hpc)
      exact h.after hr _
  | @store r addr i pc hr hmu hi =>
      obtain ⟨hleader, hopened⟩ := h.after hr (.store r)
      refine h.listed rfl rfl rfl ⟨addr, hleader, hopened⟩ rfl rfl fun pc' hpc' => ?_
      rcases List.mem_or_eq_of_mem_set hpc' with hold | rfl
      · exact Or.inl hold
      · exact Or.inr hopened
  | refresh t =>
      refine ⟨?_, h.conns, fun r => h.after rfl _⟩
      simp [Config.topoAfter]
  | die hpc =>
      refine ⟨?_, h.conns, fun r => h.after rfl _⟩
      rw [h.topo]
      simp [Config.topoAfter]

/-! ### The round-robin counter -/

/-- The calls that have started, and those that have counted, in order. -/
def called (evs : List (Action ι)) : List ι :=
  evs.filterMap fun
    | .call r => some r
    | _ => none

def picked (evs : List (Action ι)) : List ι :=
  evs.filterMap fun
    | .pick r => some r
    | _ => none

/-- A call that has counted, or never will. -/
def RoutePc.PastPick : RoutePc → Prop
  | .check _ _ | .read _ _ | .redial _ _ | .store _ _ _ | .unlockStored _ | .returned _
  | .panicked => True
  | .idle | .load | .lock _ | .dialing _ _ | .unlockNil | .unlock _ _ | .pick _ _ => False

/-- The counter counts the calls that have picked, each of them once. -/
structure Counted (evs : List (Action ι)) (s : State ι) : Prop where
  rr : s.rr = UInt64.ofNat (picked evs).length
  nodup : (picked evs).Nodup
  past : ∀ r ∈ picked evs, (s.route r).PastPick
  started : ∀ r, s.route r ≠ .idle → r ∈ called evs

omit [DecidableEq ι] in
theorem Counted.length_le (h : Counted evs s) : (picked evs).length ≤ (called evs).length := by
  refine (h.nodup.subperm fun r hr => h.started r fun hidle => ?_).length_le
  have hpast := h.past r hr
  rw [hidle] at hpast
  exact hpast

omit [DecidableEq ι] in
theorem called_append (evs : List (Action ι)) (a : Action ι) (hr : r ∈ called evs) :
    r ∈ called (evs ++ [a]) := by
  rw [called, List.filterMap_append]
  exact List.mem_append_left _ hr

/-- A step of a call that is not a pick. -/
theorem Counted.moved (h : Counted evs s) (hpicked : picked (evs ++ [a]) = picked evs)
    (hrr : s'.rr = s.rr) (hroute : s'.route = Function.update s.route r pc)
    (hpast : (s.route r).PastPick → pc.PastPick) (hcalled : r ∈ called (evs ++ [a])) :
    Counted (evs ++ [a]) s' := by
  refine ⟨by rw [hrr, hpicked, h.rr], hpicked ▸ h.nodup, ?_, ?_⟩
  · rw [hroute, hpicked]
    exact (Function.forall_update_iff s.route fun r' pc => r' ∈ picked evs → pc.PastPick).mpr
      ⟨fun hr => hpast (h.past r hr), fun r' _ => h.past r'⟩
  · rw [hroute]
    exact (Function.forall_update_iff s.route fun r' pc => pc ≠ .idle → r' ∈ called _).mpr
      ⟨fun _ => hcalled, fun r' _ hr' => called_append evs a (h.started r' hr')⟩

theorem Counted.pick (h : Counted evs s) {n : ℕ} (hr : s.route r = .pick addr n)
    (hrr : s'.rr = s.rr + 1) (hroute : s'.route = Function.update s.route r pc)
    (hpast : pc.PastPick) : Counted (evs ++ [.pick r]) s' := by
  have hpicked : picked (evs ++ [.pick r]) = picked evs ++ [r] := by simp [picked]
  have hnew : r ∉ picked evs := by
    intro hmem
    have hpast := h.past r hmem
    rw [hr] at hpast
    exact hpast
  refine ⟨?_, ?_, ?_, ?_⟩
  · rw [hrr, hpicked, h.rr, List.length_append, List.length_singleton, UInt64.ofNat_add]
    rfl
  · rw [hpicked, List.nodup_append]
    refine ⟨h.nodup, List.nodup_singleton r, fun r' hr' r'' hr'' => ?_⟩
    rw [List.mem_singleton.mp hr'']
    rintro rfl
    exact hnew hr'
  · rw [hroute, hpicked]
    refine (Function.forall_update_iff s.route fun r' pc =>
      r' ∈ picked evs ++ [r] → pc.PastPick).mpr ⟨fun _ => hpast, fun r' hne hr' => ?_⟩
    exact h.past r' ((List.mem_append.mp hr').resolve_right (by simpa using hne))
  · rw [hroute]
    refine (Function.forall_update_iff s.route fun r' pc => pc ≠ .idle → r' ∈ called _).mpr
      ⟨fun _ => ?_, fun r' _ hr' => called_append evs _ (h.started r' hr')⟩
    exact called_append evs _ (h.started r (by simp [hr]))

theorem Counted.step (h : Counted evs s) (hstep : Step cfg s a s') :
    Counted (evs ++ [a]) s' := by
  cases hstep with
  | call hr =>
      refine h.moved (by simp [picked]) rfl rfl (fun hpast => ?_) (by simp [called])
      rw [hr] at hpast
      exact hpast.elim
  | load hr | lockNil hr | lock hr | dialOk hr | dialFail hr | publish hr | unlock hr =>
      refine h.moved (by simp [picked]) rfl rfl (fun hpast => ?_)
        (called_append _ _ (h.started _ (by simp [hr])))
      rw [hr] at hpast
      exact hpast.elim
  | unlockNil hr | unlockStored hr | checkPanic hr | checkDead hr | checkLive hr | readPanic hr
  | read hr | redialOk hr | redialFail hr | store hr | storePanic hr =>
      exact h.moved (by simp [picked]) rfl rfl (fun _ => trivial)
        (called_append _ _ (h.started _ (by simp [hr])))
  | pickPanic hr | pick hr => exact h.pick hr rfl rfl trivial
  | refresh t | die hpc =>
      refine ⟨by simpa [picked] using h.rr, by simpa [picked] using h.nodup, ?_, ?_⟩
      · simpa [picked] using h.past
      · exact fun r hr => called_append evs _ (h.started r hr)

/-! ### No panic -/

/-- The call has not panicked, and the slot it is about to look at is there. -/
def RoutePc.Safe (n : ℕ) : RoutePc → Prop
  | .panicked => False
  | .check _ i => 0 ≤ i ∧ i < n
  | _ => True

omit [DecidableEq ι] in
theorem slotOf_ofNat {k n : ℕ} (hk : k < 2 ^ 63) (hn : 0 < n) :
    ∃ i : ℤ, slotOf (UInt64.ofNat k) n = some i ∧ 0 ≤ i ∧ i < n := by
  have htoInt : (UInt64.ofNat k).toInt64.toInt = k := Int64.toInt_ofNat_of_lt hk
  refine ⟨(k : ℤ).tmod n, ?_, Int.tmod_nonneg _ (by omega), Int.tmod_lt_of_pos _ (by omega)⟩
  rw [slotOf, if_neg (by omega), htoInt]

omit [DecidableEq ι] in
theorem slotAt_isSome {pcs : List ℕ} {i : ℤ} (h0 : 0 ≤ i) (hlt : i < pcs.length) :
    slotAt pcs i ≠ none := by
  rw [slotAt, if_pos h0, List.getElem?_eq_getElem (by omega : i.toNat < pcs.length)]
  simp

theorem safe_update (h : ∀ r, (s.route r).Safe n)
    (hroute : s'.route = Function.update s.route r pc) (hpc : pc.Safe n) :
    ∀ r', (s'.route r').Safe n := by
  rw [hroute]
  exact (Function.forall_update_iff s.route fun _ pc => pc.Safe n).mpr ⟨hpc, fun r' _ => h r'⟩

theorem Step.safe (hstep : Step cfg s a s') (hpos : 0 < cfg.perNode) (hshape : Shape cfg s)
    (hinv : RouteInv cfg evs s) (hcount : Counted evs s)
    (hcalls : (called (evs ++ [a])).length < 2 ^ 63)
    (h : ∀ r, (s.route r).Safe cfg.perNode.toNat) (r' : ι) :
    (s'.route r').Safe cfg.perNode.toNat := by
  -- The counter as this step leaves it does not wrap to a negative index.
  have hcount' := hcount.step hstep
  obtain ⟨i', hslot, h0, hlt⟩ :=
    slotOf_ofNat (hcount'.length_le.trans_lt hcalls) (Int.pos_iff_toNat_pos.mp hpos)
  rw [← hcount'.rr] at hslot
  cases hstep with
  | @load r hr =>
      refine safe_update h rfl ?_ r'
      rw [hinv.topo]
      rcases target_cases cfg (cfg.key r) (cfg.topoAfter evs) with hnil | ⟨addr, hlock, -⟩
      · rw [hnil]
        trivial
      · rw [hlock]
        trivial
  | pickPanic hr hi =>
      obtain ⟨rfl, -⟩ := hshape.at hr
      exact absurd (hslot.symm.trans hi) (by simp)
  | pick hr hi =>
      obtain ⟨rfl, -⟩ := hshape.at hr
      obtain rfl := Option.some.inj (hslot.symm.trans hi)
      refine safe_update h rfl ?_ r'
      exact ⟨h0, hlt⟩
  | @checkPanic r addr i hr hi =>
      have hrange := h r
      rw [hr] at hrange
      have hlen : (s.conns addr).length = cfg.perNode.toNat := hshape.at hr
      refine absurd hi (slotAt_isSome hrange.1 ?_)
      rw [hlen]
      exact hrange.2
  | @readPanic r addr i hr hi =>
      have hlt : i < (s.conns addr).length := hshape.at hr
      exact absurd hi (by simpa using hlt)
  | storePanic hr hmu hi => exact absurd (hshape.at hr) (Nat.not_lt.mpr hi)
  | call | lockNil | lock | dialOk | dialFail | publish | unlockNil | unlock | unlockStored
  | checkDead | checkLive | read | redialOk | redialFail | store =>
      refine safe_update h rfl ?_ r'
      trivial
  | refresh | die => exact h r'

/-! ### Routing -/

theorem history_of_run (hrun : cfg.system.Run evs s) : RouteInv cfg evs s ∧ Counted evs s := by
  refine hrun.history (I := fun evs s => RouteInv cfg evs s ∧ Counted evs s) ?_ ?_
  · rintro s rfl
    refine ⟨⟨rfl, by simp [Config.initial], fun _ => trivial⟩, rfl, List.nodup_nil, ?_, ?_⟩
    · simp [picked]
    · simp [Config.initial]
  · rintro evs s a - ⟨hinv, hcount⟩ ha
    have hstep := Config.step_cases (System.step_of_enabled ha)
    exact ⟨hinv.step hstep, hcount.step hstep⟩

theorem safe_of_run (hpos : 0 < cfg.perNode) (hrun : cfg.system.Run evs s)
    (hcalls : (called evs).length < 2 ^ 63) (r : ι) : (s.route r).Safe cfg.perNode.toNat := by
  refine hrun.history (I := fun evs s =>
    (called evs).length < 2 ^ 63 → ∀ r, (s.route r).Safe cfg.perNode.toNat) ?_ ?_ hcalls r
  · rintro s rfl - r
    trivial
  · intro evs s a hrun h ha hcalls
    have hstep := Config.step_cases (System.step_of_enabled ha)
    obtain ⟨hinv, hcount⟩ := history_of_run hrun
    refine hstep.safe hpos (shape_of_reachable hrun.reachable) hinv hcount hcalls (h ?_)
    rw [called, List.filterMap_append, List.length_append] at hcalls
    exact (Nat.le_add_right _ _).trans_lt hcalls

/-- In every run with fewer than `2 ^ 63` calls no call panics, and what a call
returns was dialled to the leader of its key. -/
def Config.SafeRouting (cfg : Config ι) : Prop :=
  ∀ evs s, cfg.system.Run evs s → (called evs).length < 2 ^ 63 → ∀ r, s.route r ≠ .panicked ∧
    ∀ pc, s.route r = .returned (some pc) →
      ∃ addr, cfg.LeaderDuring evs r addr ∧ s.opened[pc]? = some addr

/-- A call to a leader, when no connections are dialled. -/
def noConns (r : ι) : List (Action ι) :=
  [.refresh { numShards := 1, leaders := ["n1"] }, .call r, .load r, .lock r, .publish r,
    .unlock r, .pick r]

omit [DecidableEq ι] in
theorem target_oneShard (cfg : Config ι) (key : Bytes) :
    cfg.target key (some { numShards := 1, leaders := ["n1"] }) = .lock "n1" := by
  have hidx : (cfg.xxhash key % (1 : Int64).toUInt64).toNat = 0 := by
    rw [UInt64.toNat_mod]
    exact Nat.mod_one _
  simp [Config.target, hidx]

theorem noConns_panics (hneg : cfg.perNode ≤ 0) (r : ι) :
    ∃ s, cfg.system.Run (noConns r) s ∧ s.route r = .panicked := by
  have hloop : ¬ (0 : ℤ) < cfg.perNode := by omega
  refine System.run_of_replay (f := fun s : State ι => s.route r) (s := cfg.initial) ?_ rfl
  simp [noConns, Config.system, System.replay, System.ofStep, Config.step, State.goto,
    Config.initial, target_oneShard, hloop, slotOf]

/-- Routing is safe for every configuration that dials a connection per node, and
for no other. -/
theorem routing_safe_iff [Inhabited ι] (cfg : Config ι) : cfg.SafeRouting ↔ 0 < cfg.perNode := by
  constructor
  · intro hsafe
    by_contra hneg
    obtain ⟨s, hrun, hpanic⟩ := noConns_panics (Int.not_lt.mp hneg) (default : ι)
    exact (hsafe _ s hrun (by simp [called, noConns]) default).1 hpanic
  · intro hpos evs s hrun hcalls r
    refine ⟨fun hpanic => ?_, fun pc hpc => ?_⟩
    · have hsafe := safe_of_run hpos hrun hcalls r
      rw [hpanic] at hsafe
      exact hsafe
    · exact (history_of_run hrun).1.at hpc

/-- Two calls against one node. -/
def oneNode (perNode : ℤ) : Config Bool where
  xxhash key := UInt64.ofNat key.length
  perNode := perNode
  key _ := [7]
  topo := { numShards := 1, leaders := ["n1:7000"] }

/-- The first call dials two connections and returns the second of them. -/
def firstCall : List (Action Bool) :=
  [.call false, .load false, .lock false, .dialOk false, .dialOk false, .publish false,
   .unlock false, .pick false, .check false, .read false]

theorem routing_safe_iff_two_conns :
    ∃ s, (oneNode 2).system.Run firstCall s ∧ s.route false = .returned (some 1) ∧
      ∃ addr, (oneNode 2).LeaderDuring firstCall false addr ∧ s.opened[1]? = some addr := by
  have hreplay : ((oneNode 2).system.replay (oneNode 2).initial firstCall).map
      (fun s => s.route false) = some (.returned (some 1)) := by decide +kernel
  obtain ⟨s, hrun, hret⟩ := System.run_of_replay hreplay rfl
  have hsafe := (routing_safe_iff (oneNode 2)).mpr (by decide)
  exact ⟨s, hrun, hret, (hsafe firstCall s hrun (by decide) false).2 1 hret⟩

/-- With `-pipeconns 0` the first call to a leader panics. -/
theorem zero_pipeconns_panics :
    ∃ evs s, (oneNode 0).system.Run evs s ∧ (called evs).length < 2 ^ 63 ∧
      s.route false = .panicked := by
  have hreplay : ((oneNode 0).system.replay (oneNode 0).initial
      [.call false, .load false, .lock false, .publish false, .unlock false, .pick false]).map
      (fun s => s.route false) = some .panicked := by decide +kernel
  obtain ⟨s, hrun, hpanic⟩ := System.run_of_replay hreplay rfl
  exact ⟨_, s, hrun, by decide, hpanic⟩

end RostamBench.Netkv.PipeRoute
