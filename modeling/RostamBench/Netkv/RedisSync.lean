import RostamBench.Lib.Transition
import Mathlib.Data.List.Count
import Mathlib.Data.Fintype.Basic

/-!
`redisEngine.put` in a `-sync` run: a `SET` followed by `WAIT 1`, two commands
of one pooled client.

Puts are named by `ι`, the connections of the pool by `κ`. A command checks out
a connection that is idle, runs on it and gives it back, so between the two
commands of a put the pool may hand its connection to somebody else. What the
server knows is which `SET`s were issued on which connection and which replica
has acknowledged which of them; `WAIT` reports how many replicas have
acknowledged everything issued on the connection it runs on itself.

`put` returns nil as soon as that number is positive. It is about the right
write only if the `WAIT` runs where the `SET` did (`Pinned`), and nothing in
`put` makes that so.
-/

namespace RostamBench.Netkv.RedisSync

open Transition

/-- The errors `put` returns: that of the `SET`, that of the `WAIT`, or its
own. -/
inductive PutErr
  | set
  | wait
  | timedOut (msg : String)
  deriving DecidableEq

/-- The client and the server it talks to. -/
structure Config where
  sync : Bool
  label : String
  waitMs : ℕ
  replicas : ℕ

/-- The error of a `WAIT` that reported no replica. -/
def Config.timedOut (cfg : Config) : PutErr :=
  .timedOut (cfg.label ++ ": WAIT timed out, 0 replicas acked within " ++
    toString cfg.waitMs ++ "ms")

/-- Where a put is; `none` is a nil error. -/
inductive PutPc (κ : Type*)
  | start
  | setting (c : κ)
  | afterSet
  | waiting (c : κ)
  | returned (err : Option PutErr)
  deriving DecidableEq

variable {ι κ : Type*}

structure State (ι κ : Type*) where
  put : ι → PutPc κ
  /-- The connection is checked out of the pool. -/
  busy : κ → Bool
  /-- The `SET`s executed on each connection. -/
  issued : κ → List ι
  /-- Which replica has acknowledged which write. -/
  acked : ℕ → ι → Bool

def State.initial : State ι κ where
  put := fun _ => .start
  busy := fun _ => false
  issued := fun _ => []
  acked := fun _ _ => false

inductive Action (ι κ : Type*)
  | beginSet (i : ι) (c : κ)
  | setOk (i : ι)
  /-- The `SET` fails on the client's side, executed or not. -/
  | setFail (i : ι) (executed : Bool)
  | beginWait (i : ι) (c : κ)
  /-- `WAIT` replies. -/
  | waitReply (i : ι)
  | waitFail (i : ι)
  /-- Replica `r` acknowledges the write of put `i`. -/
  | ack (r : ℕ) (i : ι)

/-- What `WAIT` reports on connection `c`. -/
def State.waitCount (cfg : Config) (s : State ι κ) (c : κ) : ℕ :=
  (List.range cfg.replicas).countP fun r => (s.issued c).all (s.acked r)

def State.Enabled (s : State ι κ) : Action ι κ → Prop
  | .beginSet i c => s.put i = .start ∧ s.busy c = false
  | .setOk i | .setFail i _ => ∃ c, s.put i = .setting c
  | .beginWait i c => s.put i = .afterSet ∧ s.busy c = false
  | .waitReply i | .waitFail i => ∃ c, s.put i = .waiting c
  | .ack _ i => ∃ c, i ∈ s.issued c

section Steps

variable [DecidableEq ι] [DecidableEq κ]

/-- Put `i` takes connection `c` for a command. -/
def State.checkOut (s : State ι κ) (i : ι) (c : κ) (pc : PutPc κ) : State ι κ :=
  { s with put := Function.update s.put i pc, busy := Function.update s.busy c true }

/-- Put `i` gives connection `c` back. -/
def State.checkIn (s : State ι κ) (i : ι) (c : κ) (pc : PutPc κ) : State ι κ :=
  { s with put := Function.update s.put i pc, busy := Function.update s.busy c false }

/-- The server executes the `SET` of put `i` on connection `c`. -/
def State.issue (s : State ι κ) (i : ι) (c : κ) : State ι κ :=
  { s with issued := Function.update s.issued c (s.issued c ++ [i]) }

def Config.effect (cfg : Config) (s : State ι κ) : Action ι κ → State ι κ
  | .beginSet i c => s.checkOut i c (.setting c)
  | .setOk i =>
      match s.put i with
      | .setting c =>
          (s.issue i c).checkIn i c (if cfg.sync then .afterSet else .returned none)
      | _ => s
  | .setFail i executed =>
      match s.put i with
      | .setting c =>
          (if executed then s.issue i c else s).checkIn i c (.returned (some .set))
      | _ => s
  | .beginWait i c => s.checkOut i c (.waiting c)
  | .waitReply i =>
      match s.put i with
      | .waiting c =>
          s.checkIn i c (.returned
            (if s.waitCount cfg c < 1 then some cfg.timedOut else none))
      | _ => s
  | .waitFail i =>
      match s.put i with
      | .waiting c => s.checkIn i c (.returned (some .wait))
      | _ => s
  | .ack r i => { s with acked := Function.update s.acked r (Function.update (s.acked r) i true) }

/-- Concurrent puts on one client. -/
def Config.system (cfg : Config) (ι κ : Type*) [DecidableEq ι] [DecidableEq κ] :
    System (State ι κ) (Action ι κ) where
  init s := s = .initial
  enabled := State.Enabled
  effect := cfg.effect

end Steps

/-! ### Deciding what is enabled -/

instance (pc : PutPc κ) : Decidable (∃ c, pc = .setting c) :=
  match pc with
  | .setting c => isTrue ⟨c, rfl⟩
  | .start | .afterSet | .waiting _ | .returned _ => isFalse (by simp)

instance (pc : PutPc κ) : Decidable (∃ c, pc = .waiting c) :=
  match pc with
  | .waiting c => isTrue ⟨c, rfl⟩
  | .start | .afterSet | .setting _ | .returned _ => isFalse (by simp)

instance [DecidableEq ι] [DecidableEq κ] [Fintype κ] (cfg : Config) (s : State ι κ)
    (a : Action ι κ) : Decidable ((cfg.system ι κ).enabled s a) :=
  match a with
  | .beginSet i _ | .beginWait i _ => inferInstanceAs (Decidable (s.put i = _ ∧ _))
  | .setOk i | .setFail i _ => inferInstanceAs (Decidable (∃ c, s.put i = .setting c))
  | .waitReply i | .waitFail i => inferInstanceAs (Decidable (∃ c, s.put i = .waiting c))
  | .ack _ i => inferInstanceAs (Decidable (∃ c, i ∈ s.issued c))

/-- Some replica has the write of put `i`. -/
def State.Replicated (cfg : Config) (s : State ι κ) (i : ι) : Prop :=
  ∃ r < cfg.replicas, s.acked r i = true

/-- The condition `put` relies on: a `WAIT` is handed a connection on which the
`SET` of its own put was issued. -/
def Pinned (s : State ι κ) : Action ι κ → Prop
  | .beginWait i c => i ∈ s.issued c
  | _ => True

instance [DecidableEq ι] (s : State ι κ) (a : Action ι κ) : Decidable (Pinned s a) :=
  match a with
  | .beginWait i c => inferInstanceAs (Decidable (i ∈ s.issued c))
  | .beginSet _ _ | .setOk _ | .setFail _ _ | .waitReply _ | .waitFail _ | .ack _ _ =>
      isTrue trivial

/-! ### A pinned put is replicated -/

structure PinnedInv (cfg : Config) (s : State ι κ) : Prop where
  waiting : ∀ i c, s.put i = .waiting c → i ∈ s.issued c
  ok : ∀ i, s.put i = .returned none → s.Replicated cfg i

variable {cfg : Config} {s s' : State ι κ} {i : ι} {c : κ}

/-- A positive count names a replica that has every write of the connection. -/
theorem replicated_of_waitCount (hi : i ∈ s.issued c) (h : ¬ s.waitCount cfg c < 1) :
    s.Replicated cfg i := by
  have hpos : 0 < s.waitCount cfg c := by omega
  obtain ⟨r, hr, hall⟩ := List.countP_pos_iff.mp hpos
  exact ⟨r, List.mem_range.mp hr, List.all_eq_true.mp hall i hi⟩

variable [DecidableEq ι] [DecidableEq κ]

omit [DecidableEq κ] in
/-- The put moves to `pc`; writes and acknowledgements are only added. -/
theorem PinnedInv.move (h : PinnedInv cfg s) {pc : PutPc κ}
    (hput : s'.put = Function.update s.put i pc)
    (hissued : ∀ c, s.issued c ⊆ s'.issued c)
    (hacked : ∀ r j, s.acked r j = true → s'.acked r j = true)
    (hwait : ∀ c, pc = .waiting c → i ∈ s'.issued c)
    (hok : pc = .returned none → s'.Replicated cfg i) : PinnedInv cfg s' := by
  constructor
  · intro j c hj
    rw [hput] at hj
    by_cases hji : j = i
    · subst hji; exact hwait c (by simpa using hj)
    · exact hissued c (h.waiting j c (by simpa [hji] using hj))
  · intro j hj
    rw [hput] at hj
    by_cases hji : j = i
    · subst hji; exact hok (by simpa using hj)
    · obtain ⟨r, hr, ha⟩ := h.ok j (by simpa [hji] using hj)
      exact ⟨r, hr, hacked r j ha⟩

omit [DecidableEq ι] in
theorem subset_issue (s : State ι κ) (i : ι) (c c' : κ) :
    s.issued c' ⊆ (s.issue i c).issued c' := by
  intro j hj
  by_cases hc : c' = c
  · subst hc; simp [State.issue, hj]
  · simpa [State.issue, hc] using hj

theorem PinnedInv.step (hsync : cfg.sync = true) (h : PinnedInv cfg s) {a : Action ι κ}
    (ha : s.Enabled a) (hpin : Pinned s a) : PinnedInv cfg (cfg.effect s a) := by
  cases a with
  | beginSet i c =>
      exact h.move rfl (fun _ => List.Subset.refl _) (fun _ _ => id) (by simp) (by simp)
  | setOk i =>
      obtain ⟨c, hi⟩ := ha
      simp only [Config.effect, hi, hsync, if_true]
      exact h.move rfl (subset_issue s i c) (fun _ _ => id) (by simp) (by simp)
  | setFail i executed =>
      obtain ⟨c, hi⟩ := ha
      simp only [Config.effect, hi]
      cases executed with
      | true => exact h.move rfl (subset_issue s i c) (fun _ _ => id) (by simp) (by simp)
      | false =>
          exact h.move rfl (fun _ => List.Subset.refl _) (fun _ _ => id) (by simp) (by simp)
  | beginWait i c =>
      refine h.move rfl (fun _ => List.Subset.refl _) (fun _ _ => id) ?_ (by simp)
      rintro c' ⟨⟩
      exact hpin
  | waitReply i =>
      -- The only step to a nil result, and only on a positive count.
      obtain ⟨c, hi⟩ := ha
      simp only [Config.effect, hi]
      refine h.move rfl (fun _ => List.Subset.refl _) (fun _ _ => id) (by simp) ?_
      intro hnone
      have hcount : ¬ s.waitCount cfg c < 1 := by
        intro hlt
        simp [hlt] at hnone
      exact replicated_of_waitCount (h.waiting i c hi) hcount
  | waitFail i =>
      obtain ⟨c, hi⟩ := ha
      simp only [Config.effect, hi]
      exact h.move rfl (fun _ => List.Subset.refl _) (fun _ _ => id) (by simp) (by simp)
  | ack r i =>
      refine ⟨h.waiting, fun j hj => ?_⟩
      obtain ⟨r', hr', ha'⟩ := h.ok j hj
      refine ⟨r', hr', ?_⟩
      by_cases hr : r' = r
      · subst hr
        by_cases hji : j = i <;> simp [Config.effect, hji, ha']
      · simpa [Config.effect, hr] using ha'

theorem PinnedInv.reachable (hsync : cfg.sync = true)
    (hs : ((cfg.system ι κ).restrict Pinned).Reachable s) : PinnedInv cfg s := by
  refine hs.invariant ?_ (fun s a _ h ha => h.step hsync ha.1 ha.2)
  rintro s rfl
  constructor <;> simp [State.initial]

/-! ### A put that is not pinned need not be

A replica that has acknowledged everything on the connection the `WAIT` got
makes it reply, whatever became of the put's own `SET`. -/

/-- A replica may acknowledge the writes of a connection and nothing else. -/
theorem exists_run_ack {evs : List (Action ι κ)} (hrun : (cfg.system ι κ).Run evs s)
    {ws : List ι} (hws : ws ⊆ s.issued c) (hi : i ∉ ws) :
    ∃ evs' s', (cfg.system ι κ).Run (evs ++ evs') s' ∧ s'.put = s.put ∧
      s'.issued = s.issued ∧ (∀ r, s'.acked r i = s.acked r i) ∧
      (∀ j, s.acked 0 j = true → s'.acked 0 j = true) ∧
      ∀ w ∈ ws, s'.acked 0 w = true := by
  induction ws generalizing evs s with
  | nil =>
      exact ⟨[], s, by simpa using hrun, rfl, rfl, fun _ => rfl, fun _ => id, by simp⟩
  | cons w ws ih =>
      have hw : (cfg.system ι κ).enabled s (.ack 0 w) := ⟨c, hws (by simp)⟩
      have hiw : i ≠ w := fun h => hi (by simp [h])
      obtain ⟨evs', s', hrun', hput, hissued, hiacked, hmono, hacked⟩ := ih (hrun.next hw)
        (fun x hx => hws (by simp [hx])) (fun h => hi (by simp [h]))
      refine ⟨.ack 0 w :: evs', s', by simpa using hrun', hput, hissued, ?_, ?_, ?_⟩
      · intro r
        rw [hiacked]
        by_cases hr : r = 0
        · subst hr; simp [Config.system, Config.effect, hiw]
        · simp [Config.system, Config.effect, hr]
      · intro j hj
        apply hmono
        by_cases hjw : j = w <;> simp [Config.system, Config.effect, hjw, hj]
      · intro x hx
        rcases List.mem_cons.mp hx with rfl | hx
        · exact hmono x (by simp [Config.system, Config.effect])
        · exact hacked x hx

/-- A `WAIT` on a connection that does not carry the put's own `SET` can make
the put return nil while no replica has the write. -/
theorem exists_run_unreplicated {evs : List (Action ι κ)}
    (hrun : (cfg.system ι κ).Run evs s) (hrep : 0 < cfg.replicas)
    (hi : s.put i = .afterSet) (hidle : s.busy c = false) (hnot : ¬ s.Replicated cfg i)
    (hunpinned : i ∉ s.issued c) :
    ∃ evs' s', (cfg.system ι κ).Run (evs ++ .beginWait i c :: evs') s' ∧
      s'.put i = .returned none ∧ ¬ s'.Replicated cfg i := by
  have hwait : (cfg.system ι κ).enabled s (.beginWait i c) := ⟨hi, hidle⟩
  obtain ⟨acks, s₁, hrun₁, hput₁, hissued₁, hiacked₁, -, hacked₁⟩ :=
    exists_run_ack (hrun.next hwait) (List.Subset.refl (s.issued c)) hunpinned
  have hwaiting : s₁.put i = .waiting c := by
    rw [hput₁]
    simp [Config.system, Config.effect, State.checkOut]
  -- Replica 0 has all of the connection's writes, and the put's is not one.
  have hcount : ¬ s₁.waitCount cfg c < 1 := by
    have hpos : 0 < s₁.waitCount cfg c := by
      refine List.countP_pos_iff.mpr ⟨0, List.mem_range.mpr hrep, ?_⟩
      rw [hissued₁]
      exact List.all_eq_true.mpr hacked₁
    omega
  have hreply : (cfg.system ι κ).enabled s₁ (.waitReply i) := ⟨c, hwaiting⟩
  refine ⟨acks ++ [.waitReply i], (cfg.system ι κ).effect s₁ (.waitReply i), ?_, ?_, ?_⟩
  · simpa using hrun₁.next hreply
  · simp [Config.system, Config.effect, hwaiting, State.checkIn] at hcount ⊢
    exact hcount
  · rintro ⟨r, hr, hack⟩
    refine hnot ⟨r, hr, ?_⟩
    have hback : s₁.acked r i = true := by
      simpa [Config.system, Config.effect, hwaiting, State.checkIn] using hack
    rwa [hiacked₁] at hback

/-! ### The guarantee of a `-sync` run -/

/-- **When a synchronous put is replicated.** In every run whose `WAIT`s are all
pinned, a put that has returned nil has its own write acknowledged by a
replica. And only then: from any reachable state, a `WAIT` handed another
connection before a replica has the write can be followed by a run in which
the put returns nil with its write on no replica. -/
theorem sync_put_replicated_iff_pinned (hsync : cfg.sync = true) :
    (∀ s, ((cfg.system ι κ).restrict Pinned).Reachable s →
      ∀ i, s.put i = .returned none → s.Replicated cfg i) ∧
    (∀ evs s, (cfg.system ι κ).Run evs s → 0 < cfg.replicas →
      ∀ i c, s.put i = .afterSet → s.busy c = false → ¬ s.Replicated cfg i →
        ¬ Pinned s (.beginWait i c) →
        ∃ evs' s', (cfg.system ι κ).Run (evs ++ .beginWait i c :: evs') s' ∧
          s'.put i = .returned none ∧ ¬ s'.Replicated cfg i) :=
  ⟨fun _ hs => (PinnedInv.reachable hsync hs).ok,
    fun _ _ hrun hrep _ _ hi hidle hnot hunpinned =>
      exists_run_unreplicated hrun hrep hi hidle hnot hunpinned⟩

/-- A primary with one replica. -/
def oneReplica : Config := { sync := true, label := "redis", waitMs := 1000, replicas := 1 }

/-- One put that gets the same connection twice. -/
theorem sync_put_replicated_iff_pinned_one_put :
    ∃ s, ((oneReplica.system Bool Bool).restrict Pinned).Reachable s ∧
      s.put true = .returned none ∧ s.Replicated oneReplica true := by
  have hreplay : (((oneReplica.system Bool Bool).restrict Pinned).replay .initial
      [.beginSet true true, .setOk true, .ack 0 true, .beginWait true true,
        .waitReply true]).map (fun s => s.put true) = some (.returned none) := by decide
  obtain ⟨s, hrun, hput⟩ := System.run_of_replay hreplay rfl
  exact ⟨s, hrun.reachable, hput,
    (sync_put_replicated_iff_pinned rfl).1 s hrun.reachable true hput⟩

/-- Two puts swap connections between their two commands: the `WAIT` of the
second runs on the connection of the first, whose write the replica has. -/
theorem sync_put_not_replicated :
    ¬ ∀ s, (oneReplica.system Bool Bool).Reachable s →
      ∀ i, s.put i = .returned none → s.Replicated oneReplica i := by
  intro hall
  have hreplay : ((oneReplica.system Bool Bool).replay .initial
      [.beginSet false false, .setOk false, .ack 0 false, .beginSet true true, .setOk true,
        .beginWait true false, .waitReply true]).map
      (fun s => (s.put true, s.acked 0 true)) = some (.returned none, false) := by decide
  obtain ⟨s, hrun, hstate⟩ := System.run_of_replay hreplay rfl
  simp only [Prod.mk.injEq] at hstate
  obtain ⟨hput, hacked⟩ := hstate
  obtain ⟨r, hr, hack⟩ := hall s hrun.reachable true hput
  obtain rfl : r = 0 := by simpa [oneReplica] using hr
  rw [hacked] at hack
  cases hack

end RostamBench.Netkv.RedisSync
