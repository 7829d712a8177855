import RostamBench.Lib.Transition
import RostamBench.Lib.CellProg
import Mathlib.Data.List.Nodup
import Mathlib.Data.List.Infix
import Mathlib.Order.WellFounded
import Mathlib.Data.Fintype.Order

/-!
Jobs that take a list of locks, run a program over shared cells and give the
locks back.

A job takes the locks of its plan one by one in the order of the plan, then
runs, then releases them one by one in the same order; operations of different
jobs interleave. Two theorems are what locking is for.

If every job has locked whatever it touches, the jobs are serializable in real
time (`serializable`): the order in which they finish their programs explains
the final cells and every result, and a job that had returned before another
was called comes first in it. The heart is `SerialInv`, which compares the
shared cells with the store of the serial run: the rest of a job's program,
run from the shared cells, does on the locked cells what its whole program does
from the serial store.

If every plan is increasing for one order of the locks, some job can always
move (`exists_canStep`), and when all jobs are done no lock is held
(`owner_none_of_done`).
-/

namespace Locking

open Transition Effects CellProg

/-- What a job locks and what it then does. -/
structure Job (L : Type*) {O : Type*} (R : O → Type*) (ρ : Type*) where
  plan : List L
  prog : Prog R ρ

/-- Where a job is. -/
inductive Pc (L : Type*) {O : Type*} (R : O → Type*) (ρ : Type*)
  | idle
  | locking (todo : List L)
  | running (p : Prog R ρ)
  | unlocking (todo : List L) (r : ρ)
  | returned (r : ρ)

/-- The cells, who holds which lock, and where every job is. That a lock knows
its holder is for the statements only: a step asks no more than whether it is
free. -/
structure State (ι κ ν L : Type*) {O : Type*} (R : O → Type*) (ρ : Type*) where
  cells : κ → ν
  owner : L → Option ι
  pc : ι → Pc L R ρ

inductive Action (ι : Type*)
  | call (i : ι)
  | lock (i : ι)
  | enter (i : ι)
  | act (i : ι)
  | finish (i : ι)
  | unlock (i : ι)
  | ret (i : ι)
  deriving DecidableEq

variable {ι κ ν L ρ O : Type*} {R : O → Type*}

/-- The job an action belongs to. -/
def Action.job : Action ι → ι
  | .call i | .lock i | .enter i | .act i | .finish i | .unlock i | .ret i => i

def State.Enabled (s : State ι κ ν L R ρ) : Action ι → Prop
  | .call i => s.pc i = .idle
  | .lock i => ∃ l todo, s.pc i = .locking (l :: todo) ∧ s.owner l = none
  | .enter i => s.pc i = .locking []
  | .act i => ∃ o next, s.pc i = .running (.op o next)
  | .finish i => ∃ r, s.pc i = .running (.ret r)
  | .unlock i => ∃ l todo r, s.pc i = .unlocking (l :: todo) r
  | .ret i => ∃ r, s.pc i = .unlocking [] r

/-- A guard is a test on one program counter and, for `lock`, on one mutex. -/
instance (s : State ι κ ν L R ρ) (a : Action ι) : Decidable (s.Enabled a) :=
  match a with
  | .call i =>
      match h : s.pc i with
      | .idle => isTrue h
      | .locking _ | .running _ | .unlocking _ _ | .returned _ =>
          isFalse (by simp [State.Enabled, h])
  | .lock i =>
      match h : s.pc i with
      | .locking (l :: _) =>
          match ho : s.owner l with
          | none => isTrue ⟨l, _, h, ho⟩
          | some _ => isFalse (by simp [State.Enabled, h, ho])
      | .locking [] | .idle | .running _ | .unlocking _ _ | .returned _ =>
          isFalse (by simp [State.Enabled, h])
  | .enter i =>
      match h : s.pc i with
      | .locking [] => isTrue h
      | .locking (_ :: _) | .idle | .running _ | .unlocking _ _ | .returned _ =>
          isFalse (by simp [State.Enabled, h])
  | .act i =>
      match h : s.pc i with
      | .running (.op o next) => isTrue ⟨o, next, h⟩
      | .running (.ret _) | .idle | .locking _ | .unlocking _ _ | .returned _ =>
          isFalse (by simp [State.Enabled, h])
  | .finish i =>
      match h : s.pc i with
      | .running (.ret r) => isTrue ⟨r, h⟩
      | .running (.op _ _) | .idle | .locking _ | .unlocking _ _ | .returned _ =>
          isFalse (by simp [State.Enabled, h])
  | .unlock i =>
      match h : s.pc i with
      | .unlocking (l :: todo) r => isTrue ⟨l, todo, r, h⟩
      | .unlocking [] _ | .idle | .locking _ | .running _ | .returned _ =>
          isFalse (by simp [State.Enabled, h])
  | .ret i =>
      match h : s.pc i with
      | .unlocking [] r => isTrue ⟨r, h⟩
      | .unlocking (_ :: _) _ | .idle | .locking _ | .running _ | .returned _ =>
          isFalse (by simp [State.Enabled, h])

variable [DecidableEq ι] [DecidableEq κ] [DecidableEq L]

def State.goto (s : State ι κ ν L R ρ) (i : ι) (pc : Pc L R ρ) : State ι κ ν L R ρ :=
  { s with pc := Function.update s.pc i pc }

def effect (jobs : ι → Job L R ρ) (ops : CellOps κ ν R) (s : State ι κ ν L R ρ) :
    Action ι → State ι κ ν L R ρ
  | .call i => s.goto i (.locking (jobs i).plan)
  | .lock i =>
      match s.pc i with
      | .locking (l :: todo) =>
          { s.goto i (.locking todo) with owner := Function.update s.owner l (some i) }
      | _ => s
  | .enter i => s.goto i (.running (jobs i).prog)
  | .act i =>
      match s.pc i with
      | .running (.op o next) =>
          { s.goto i (.running (next (ops.act o (s.cells (ops.key o))).2)) with
            cells := ops.store o s.cells }
      | _ => s
  | .finish i =>
      match s.pc i with
      | .running (.ret r) => s.goto i (.unlocking (jobs i).plan r)
      | _ => s
  | .unlock i =>
      match s.pc i with
      | .unlocking (l :: todo) r =>
          { s.goto i (.unlocking todo r) with owner := Function.update s.owner l none }
      | _ => s
  | .ret i =>
      match s.pc i with
      | .unlocking [] r => s.goto i (.returned r)
      | _ => s

/-- Nothing is locked and no job has been called. -/
def State.initial (c₀ : κ → ν) : State ι κ ν L R ρ where
  cells := c₀
  owner := fun _ => none
  pc := fun _ => .idle

def system (jobs : ι → Job L R ρ) (ops : CellOps κ ν R) (c₀ : κ → ν) :
    System (State ι κ ν L R ρ) (Action ι) where
  init s := s = .initial c₀
  enabled := State.Enabled
  effect := effect jobs ops

instance (jobs : ι → Job L R ρ) (ops : CellOps κ ν R) (c₀ : κ → ν) (s : State ι κ ν L R ρ)
    (a : Action ι) : Decidable ((system jobs ops c₀).enabled s a) :=
  inferInstanceAs (Decidable (s.Enabled a))

/-! ### What a step can do -/

/-- The steps with their program counters resolved. -/
inductive Step (jobs : ι → Job L R ρ) (ops : CellOps κ ν R) (s : State ι κ ν L R ρ) :
    Action ι → State ι κ ν L R ρ → Prop
  | call {i : ι} (hi : s.pc i = .idle) :
      Step jobs ops s (.call i) (s.goto i (.locking (jobs i).plan))
  | lock {i : ι} {l : L} {todo : List L} (hi : s.pc i = .locking (l :: todo))
      (hl : s.owner l = none) :
      Step jobs ops s (.lock i)
        { s.goto i (.locking todo) with owner := Function.update s.owner l (some i) }
  | enter {i : ι} (hi : s.pc i = .locking []) :
      Step jobs ops s (.enter i) (s.goto i (.running (jobs i).prog))
  | act {i : ι} {o : O} {next : R o → Prog R ρ}
      (hi : s.pc i = .running (.op o next)) :
      Step jobs ops s (.act i)
        { s.goto i (.running (next (ops.act o (s.cells (ops.key o))).2)) with
          cells := ops.store o s.cells }
  | finish {i : ι} {r : ρ} (hi : s.pc i = .running (.ret r)) :
      Step jobs ops s (.finish i) (s.goto i (.unlocking (jobs i).plan r))
  | unlock {i : ι} {l : L} {todo : List L} {r : ρ} (hi : s.pc i = .unlocking (l :: todo) r) :
      Step jobs ops s (.unlock i)
        { s.goto i (.unlocking todo r) with owner := Function.update s.owner l none }
  | ret {i : ι} {r : ρ} (hi : s.pc i = .unlocking [] r) :
      Step jobs ops s (.ret i) (s.goto i (.returned r))

theorem step_effect {jobs : ι → Job L R ρ} {ops : CellOps κ ν R} {s : State ι κ ν L R ρ}
    {a : Action ι} (ha : s.Enabled a) : Step jobs ops s a (effect jobs ops s a) := by
  cases a with
  | call i => exact .call ha
  | lock i =>
      obtain ⟨l, todo, hi, hl⟩ := ha
      simpa only [effect, hi] using Step.lock hi hl
  | enter i => exact .enter ha
  | act i =>
      obtain ⟨o, next, hi⟩ := ha
      simpa only [effect, hi] using Step.act hi
  | finish i =>
      obtain ⟨r, hi⟩ := ha
      simpa only [effect, hi] using Step.finish hi
  | unlock i =>
      obtain ⟨l, todo, r, hi⟩ := ha
      simpa only [effect, hi] using Step.unlock hi
  | ret i =>
      obtain ⟨r, hi⟩ := ha
      simpa only [effect, hi] using Step.ret hi

/-! ### Who holds which lock -/

/-- The job holds `l`, given its plan. -/
def Pc.Holds (plan : List L) (l : L) : Pc L R ρ → Prop
  | .locking todo => l ∈ plan ∧ l ∉ todo
  | .running _ => l ∈ plan
  | .unlocking todo _ => l ∈ todo
  | .idle | .returned _ => False

/-- The locks the job has still to take, or still to release. -/
def Pc.todo : Pc L R ρ → List L
  | .locking todo | .unlocking todo _ => todo
  | .idle | .running _ | .returned _ => []

structure OwnInv (jobs : ι → Job L R ρ) (s : State ι κ ν L R ρ) : Prop where
  owner : ∀ l i, s.owner l = some i ↔ (s.pc i).Holds (jobs i).plan l
  todo : ∀ i, (s.pc i).todo <:+ (jobs i).plan

variable {jobs : ι → Job L R ρ} {ops : CellOps κ ν R} {c₀ : κ → ν}
  {s s' : State ι κ ν L R ρ} {i : ι} {pc : Pc L R ρ}

omit [DecidableEq κ] [DecidableEq L] in
/-- A job moves without taking or releasing a lock. -/
theorem OwnInv.goto (h : OwnInv jobs s)
    (hholds : ∀ l, pc.Holds (jobs i).plan l ↔ (s.pc i).Holds (jobs i).plan l)
    (htodo : pc.todo <:+ (jobs i).plan) : OwnInv jobs (s.goto i pc) where
  owner l j := by
    by_cases hj : j = i
    · subst hj; simpa [State.goto, hholds] using h.owner l j
    · simpa [State.goto, hj] using h.owner l j
  todo j := by
    by_cases hj : j = i
    · subst hj; simpa [State.goto] using htodo
    · simpa [State.goto, hj] using h.todo j

omit [DecidableEq κ] in
/-- A job moves and the owner of one lock changes with it. -/
theorem OwnInv.gotoOwner (h : OwnInv jobs s) {l : L} {o : Option ι}
    (hold : s.owner l = none ∨ s.owner l = some i) (hnew : o = none ∨ o = some i)
    (hself : pc.Holds (jobs i).plan l ↔ o = some i)
    (hholds : ∀ l', l' ≠ l → (pc.Holds (jobs i).plan l' ↔ (s.pc i).Holds (jobs i).plan l'))
    (htodo : pc.todo <:+ (jobs i).plan) :
    OwnInv jobs { s.goto i pc with owner := Function.update s.owner l o } where
  owner l' j := by
    by_cases hl : l' = l
    · subst hl
      by_cases hj : j = i
      · subst hj; simp [State.goto, hself]
      · have hnot : ¬ (s.pc j).Holds (jobs j).plan l' := by
          rw [← h.owner l' j]
          rintro heq
          rcases hold with hold | hold <;> rw [hold] at heq <;> simp at heq
          exact hj heq.symm
        have hne : o ≠ some j := by
          rcases hnew with rfl | rfl
          · simp
          · simpa using Ne.symm hj
        simp [State.goto, hj, hnot, hne]
    · by_cases hj : j = i
      · subst hj; simpa [State.goto, hl, hholds l' hl] using h.owner l' j
      · simpa [State.goto, hl, hj] using h.owner l' j
  todo j := by
    by_cases hj : j = i
    · subst hj; simpa [State.goto] using htodo
    · simpa [State.goto, hj] using h.todo j

theorem OwnInv.step (hplan : ∀ i, (jobs i).plan.Nodup) (h : OwnInv jobs s) {a : Action ι}
    (hstep : Step jobs ops s a s') : OwnInv jobs s' := by
  cases hstep with
  | @call i hi =>
      refine h.goto (fun l => ?_) List.suffix_rfl
      rw [hi]
      simp [Pc.Holds]
  | @lock i l todo hi hl =>
      have hsuf := h.todo i
      rw [hi] at hsuf
      have hsuf : l :: todo <:+ (jobs i).plan := hsuf
      have hnodup : (l :: todo).Nodup := hsuf.sublist.nodup (hplan i)
      refine h.gotoOwner (Or.inl hl) (Or.inr rfl) ?_ (fun l' hne => ?_)
        ((List.suffix_cons l todo).trans hsuf)
      · have hmem : l ∈ (jobs i).plan := hsuf.subset (by simp)
        simp [Pc.Holds, hmem, (List.nodup_cons.mp hnodup).1]
      · rw [hi]
        simp [Pc.Holds, hne]
  | @enter i hi =>
      refine h.goto (fun l => ?_) (List.nil_suffix)
      rw [hi]
      simp [Pc.Holds]
  | @act i o next hi =>
      have hgoto : OwnInv jobs (s.goto i (.running (next (ops.act o (s.cells (ops.key o))).2))) := by
        refine h.goto (fun l => ?_) List.nil_suffix
        rw [hi]
        simp [Pc.Holds]
      exact ⟨hgoto.owner, hgoto.todo⟩
  | @finish i r hi =>
      refine h.goto (fun l => ?_) List.suffix_rfl
      rw [hi]
      simp [Pc.Holds]
  | @unlock i l todo r hi =>
      have hsuf := h.todo i
      rw [hi] at hsuf
      have hsuf : l :: todo <:+ (jobs i).plan := hsuf
      have hnodup : (l :: todo).Nodup := hsuf.sublist.nodup (hplan i)
      have hown : s.owner l = some i := (h.owner l i).mpr (by rw [hi]; simp [Pc.Holds])
      refine h.gotoOwner (Or.inr hown) (Or.inl rfl) ?_ (fun l' hne => ?_)
        ((List.suffix_cons l todo).trans hsuf)
      · simp [Pc.Holds, (List.nodup_cons.mp hnodup).1]
      · rw [hi]
        simp [Pc.Holds, hne]
  | @ret i r hi =>
      refine h.goto (fun l => ?_) List.nil_suffix
      rw [hi]
      simp [Pc.Holds]

theorem OwnInv.reachable (hplan : ∀ i, (jobs i).plan.Nodup)
    (hs : (system jobs ops c₀).Reachable s) : OwnInv jobs s := by
  refine hs.invariant ?_ (fun s a _ h ha => h.step hplan (step_effect ha))
  rintro s rfl
  constructor <;> simp [State.initial, Pc.Holds, Pc.todo]

/-! ### Progress -/

/-- The job has been called and has not returned. -/
def Pc.Active : Pc L R ρ → Prop
  | .idle | .returned _ => False
  | .locking _ | .running _ | .unlocking _ _ => True

/-- Job `i` can take its next step. -/
def State.CanStep (s : State ι κ ν L R ρ) (i : ι) : Prop :=
  ∃ a : Action ι, a.job = i ∧ s.Enabled a

omit [DecidableEq ι] [DecidableEq κ] [DecidableEq L] in
/-- A job past its last lock never waits. -/
theorem canStep_of_running {p : Prog R ρ} (hi : s.pc i = .running p) : s.CanStep i := by
  cases p with
  | ret r => exact ⟨.finish i, rfl, r, hi⟩
  | op o next => exact ⟨.act i, rfl, o, next, hi⟩

omit [DecidableEq ι] [DecidableEq κ] [DecidableEq L] in
theorem canStep_of_unlocking {todo : List L} {r : ρ} (hi : s.pc i = .unlocking todo r) :
    s.CanStep i := by
  cases todo with
  | nil => exact ⟨.ret i, rfl, r, hi⟩
  | cons l todo => exact ⟨.unlock i, rfl, l, todo, r, hi⟩

section Progress

variable [Preorder L]

omit [DecidableEq κ] [DecidableEq ι] [DecidableEq L] in
/-- Whoever holds the lock a job waits for waits, if at all, for a greater
one. -/
theorem exists_canStep_of_waiting [WellFoundedGT L]
    (hsorted : ∀ i, (jobs i).plan.Pairwise (· < ·)) (h : OwnInv jobs s) (l : L) :
    ∀ i todo, s.pc i = .locking (l :: todo) → ∃ j, (s.pc j).Active ∧ s.CanStep j := by
  -- A chain of waiting jobs climbs through the locks, so it comes to an end.
  induction l using WellFoundedGT.induction with
  | ind l ih =>
      intro i todo hi
      cases hown : s.owner l with
      | none =>
          exact ⟨i, by rw [hi]; trivial, .lock i, rfl, l, todo, hi, hown⟩
      | some j =>
          have hholds := (h.owner l j).mp hown
          cases hj : s.pc j with
          | idle => rw [hj] at hholds; exact hholds.elim
          | returned r => rw [hj] at hholds; exact hholds.elim
          | running p => exact ⟨j, by rw [hj]; trivial, canStep_of_running hj⟩
          | unlocking todo r => exact ⟨j, by rw [hj]; trivial, canStep_of_unlocking hj⟩
          | locking todo' =>
              rw [hj] at hholds
              obtain ⟨hmem, hnot⟩ : l ∈ (jobs j).plan ∧ l ∉ todo' := hholds
              cases todo' with
              | nil => exact ⟨j, by rw [hj]; trivial, .enter j, rfl, hj⟩
              | cons l' todo' =>
                  have hsuf := h.todo j
                  rw [hj] at hsuf
                  obtain ⟨done, hdone⟩ := hsuf
                  have hdone : done ++ l' :: todo' = (jobs j).plan := hdone
                  have hpair := hsorted j
                  rw [← hdone] at hpair hmem
                  have hlt : l < l' := by
                    rcases List.mem_append.mp hmem with hmem | hmem
                    · exact (List.pairwise_append.mp hpair).2.2 l hmem l' (by simp)
                    · exact absurd hmem hnot
                  exact ih l' hlt j todo' hj

omit [DecidableEq ι] [DecidableEq κ] [DecidableEq L] in
theorem nodup_of_sorted (hsorted : ∀ i, (jobs i).plan.Pairwise (· < ·)) (i : ι) :
    (jobs i).plan.Nodup :=
  (hsorted i).imp ne_of_lt

/-- While some job is between its call and its return, one of those jobs can
move. -/
theorem exists_canStep [WellFoundedGT L] (hsorted : ∀ i, (jobs i).plan.Pairwise (· < ·))
    (hs : (system jobs ops c₀).Reachable s) (hi : (s.pc i).Active) :
    ∃ j, (s.pc j).Active ∧ s.CanStep j := by
  have h := OwnInv.reachable (nodup_of_sorted hsorted) hs
  cases hpc : s.pc i with
  | idle => rw [hpc] at hi; exact hi.elim
  | returned r => rw [hpc] at hi; exact hi.elim
  | running p => exact ⟨i, hi, canStep_of_running hpc⟩
  | unlocking todo r => exact ⟨i, hi, canStep_of_unlocking hpc⟩
  | locking todo =>
      cases todo with
      | nil => exact ⟨i, hi, .enter i, rfl, hpc⟩
      | cons l todo => exact exists_canStep_of_waiting hsorted h l i todo hpc

end Progress

/-- When no job is between its call and its return, no lock is held. -/
theorem owner_none_of_done (hplan : ∀ i, (jobs i).plan.Nodup)
    (hs : (system jobs ops c₀).Reachable s) (hdone : ∀ i, ¬ (s.pc i).Active) (l : L) :
    s.owner l = none := by
  cases hown : s.owner l with
  | none => rfl
  | some i =>
      have hholds := ((OwnInv.reachable hplan hs).owner l i).mp hown
      have hi := hdone i
      cases hpc : s.pc i <;> rw [hpc] at hholds hi
      · exact hholds.elim
      · exact absurd trivial hi
      · exact absurd trivial hi
      · exact absurd trivial hi
      · exact hholds.elim

/-! ### Serializability -/

/-- One job of a serial run: it runs alone on the store its predecessors left. -/
def serialStep (jobs : ι → Job L R ρ) (ops : CellOps κ ν R)
    (out : (κ → ν) × List (ι × ρ)) (i : ι) : (κ → ν) × List (ι × ρ) :=
  ((ops.run (jobs i).prog out.1).1, out.2 ++ [(i, (ops.run (jobs i).prog out.1).2)])

/-- The store and the results of running the jobs of a list one at a time. -/
def serial (jobs : ι → Job L R ρ) (ops : CellOps κ ν R) (c₀ : κ → ν) (order : List ι) :
    (κ → ν) × List (ι × ρ) :=
  order.foldl (serialStep jobs ops) (c₀, [])

omit [DecidableEq ι] [DecidableEq L] in
theorem serial_append_singleton (order : List ι) (i : ι) :
    serial jobs ops c₀ (order ++ [i]) =
      serialStep jobs ops (serial jobs ops c₀ order) i := by
  simp [serial]

/-- The result of a job that is through with its program. -/
def Pc.result : Pc L R ρ → Option ρ
  | .unlocking _ r | .returned r => some r
  | .idle | .locking _ | .running _ => none

/-- Every job has a lock on whatever its program touches. -/
def Covered (jobs : ι → Job L R ρ) (ops : CellOps κ ν R) (shard : κ → L) : Prop :=
  ∀ i, (jobs i).prog.Uses fun o => shard (ops.key o) ∈ (jobs i).plan

/-- The shared cells against the store of the serial run of `order`. -/
structure SerialInv (jobs : ι → Job L R ρ) (ops : CellOps κ ν R) (c₀ : κ → ν)
    (shard : κ → L) (order : List ι) (s : State ι κ ν L R ρ) : Prop where
  nodup : order.Nodup
  done : ∀ i, i ∈ order ↔ ∃ r, (s.pc i).result = some r
  result : ∀ i r, (s.pc i).result = some r → (i, r) ∈ (serial jobs ops c₀ order).2
  cells : ∀ k, (∀ i p, s.pc i = .running p → shard k ∉ (jobs i).plan) →
    s.cells k = (serial jobs ops c₀ order).1 k
  touches : ∀ i p, s.pc i = .running p → p.Uses fun o => shard (ops.key o) ∈ (jobs i).plan
  rest : ∀ i p, s.pc i = .running p →
    (ops.run (jobs i).prog (serial jobs ops c₀ order).1).2 = (ops.run p s.cells).2 ∧
      ∀ k, shard k ∈ (jobs i).plan →
        (ops.run (jobs i).prog (serial jobs ops c₀ order).1).1 k = (ops.run p s.cells).1 k

variable {shard : κ → L} {order : List ι}

omit [DecidableEq κ] [DecidableEq L] in
theorem State.goto_result (h : pc.result = (s.pc i).result) (j : ι) :
    ((s.goto i pc).pc j).result = (s.pc j).result := by
  by_cases hj : j = i
  · subst hj; simpa [State.goto] using h
  · simp [State.goto, hj]

omit [DecidableEq ι] [DecidableEq L] in
/-- A job leaves alone what it has no lock on. -/
theorem serial_append_frame (hcov : Covered jobs ops shard) {k : κ}
    (hk : shard k ∉ (jobs i).plan) :
    (serial jobs ops c₀ (order ++ [i])).1 k = (serial jobs ops c₀ order).1 k := by
  rw [serial_append_singleton]
  exact CellOps.run_frame (fun k => shard k ∈ (jobs i).plan) (hcov i) _ hk

omit [DecidableEq L] in
/-- A step between program counters outside the program. -/
theorem SerialInv.goto (h : SerialInv jobs ops c₀ shard order s)
    (hcells : s'.cells = s.cells) (hpc : s'.pc = Function.update s.pc i pc)
    (hold : ∀ p, s.pc i ≠ .running p) (hnew : ∀ p, pc ≠ .running p)
    (hres : pc.result = (s.pc i).result) : SerialInv jobs ops c₀ shard order s' := by
  have hresult (j : ι) : (s'.pc j).result = (s.pc j).result := by
    rw [hpc]
    exact State.goto_result hres j
  have hrunning {j : ι} {p : Prog R ρ} : s'.pc j = .running p ↔ s.pc j = .running p := by
    rw [hpc]
    by_cases hj : j = i
    · subst hj; simp [hnew p, hold p]
    · simp [hj]
  refine ⟨h.nodup, ?_, ?_, ?_, ?_, ?_⟩
  · intro j
    rw [hresult]
    exact h.done j
  · intro j r hr
    rw [hresult] at hr
    exact h.result j r hr
  · intro k hk
    rw [hcells]
    exact h.cells k fun j p hj => hk j p (hrunning.mpr hj)
  · intro j p hj
    exact h.touches j p (hrunning.mp hj)
  · intro j p hj
    rw [hcells]
    exact h.rest j p (hrunning.mp hj)

omit [DecidableEq ι] [DecidableEq κ] [DecidableEq L] in
/-- Two jobs that run at once have no lock in common. -/
theorem OwnInv.disjoint (h : OwnInv jobs s) {j : ι} {p q : Prog R ρ} {l : L}
    (hi : s.pc i = .running p) (hj : s.pc j = .running q) (hil : l ∈ (jobs i).plan)
    (hjl : l ∈ (jobs j).plan) : j = i := by
  have hown := (h.owner l i).mpr (by rw [hi]; exact hil)
  have hown' := (h.owner l j).mpr (by rw [hj]; exact hjl)
  exact Option.some.inj (hown'.symm.trans hown)

omit [DecidableEq L] in
/-- The program starts: on the cells it has locked nothing has happened since
the last job of the serial order. -/
theorem SerialInv.enter (hcov : Covered jobs ops shard) (h : SerialInv jobs ops c₀ shard order s)
    (hown : OwnInv jobs s) (hi : s.pc i = .locking []) :
    SerialInv jobs ops c₀ shard order (s.goto i (.running (jobs i).prog)) := by
  have hfree : ∀ k, shard k ∈ (jobs i).plan →
      s.cells k = (serial jobs ops c₀ order).1 k := by
    intro k hk
    refine h.cells k fun j p hj hjk => ?_
    have hi' := (hown.owner (shard k) i).mpr (by rw [hi]; exact ⟨hk, by simp⟩)
    have hj' := (hown.owner (shard k) j).mpr (by rw [hj]; exact hjk)
    have hji : j = i := Option.some.inj (hj'.symm.trans hi')
    rw [hji, hi] at hj
    cases hj
  have hres : (Pc.running (jobs i).prog : Pc L R ρ).result = (s.pc i).result := by
    rw [hi]; rfl
  refine ⟨h.nodup, ?_, ?_, ?_, ?_, ?_⟩
  · intro j
    rw [State.goto_result hres]
    exact h.done j
  · intro j r hr
    rw [State.goto_result hres] at hr
    exact h.result j r hr
  · intro k hk
    refine h.cells k fun j p hj => hk j p ?_
    have hji : j ≠ i := fun heq => by rw [heq, hi] at hj; cases hj
    simpa [State.goto, hji] using hj
  · intro j p hj
    by_cases hji : j = i
    · subst hji
      obtain rfl : (jobs j).prog = p := by simpa [State.goto] using hj
      exact hcov j
    · exact h.touches j p (by simpa [State.goto, hji] using hj)
  · intro j p hj
    by_cases hji : j = i
    · subst hji
      obtain rfl : (jobs j).prog = p := by simpa [State.goto] using hj
      exact CellOps.run_congr (fun k => shard k ∈ (jobs j).plan) (hcov j)
        fun k hk => (hfree k hk).symm
    · exact h.rest j p (by simpa [State.goto, hji] using hj)

omit [DecidableEq L] in
/-- One operation: it is the next one of this job's program, and on a cell no
other running job can see. -/
theorem SerialInv.operate (h : SerialInv jobs ops c₀ shard order s) (hown : OwnInv jobs s)
    {o : O} {next : R o → Prog R ρ} (hi : s.pc i = .running (.op o next)) :
    SerialInv jobs ops c₀ shard order
      { s.goto i (.running (next (ops.act o (s.cells (ops.key o))).2)) with
        cells := ops.store o s.cells } := by
  have htouch := h.touches i _ hi
  have hcell {j : ι} {p : Prog R ρ} (hji : j ≠ i) (hj : s.pc j = .running p) {k' : κ}
      (hk' : shard k' ∈ (jobs j).plan) : s.cells k' = ops.store o s.cells k' := by
    have hne : k' ≠ ops.key o := fun heq => hji (hown.disjoint hi hj htouch.1 (heq ▸ hk'))
    rw [CellOps.store, Function.update_of_ne hne]
  have hres : (Pc.running (next (ops.act o (s.cells (ops.key o))).2) : Pc L R ρ).result =
      (s.pc i).result := by
    rw [hi]; rfl
  refine ⟨h.nodup, ?_, ?_, ?_, ?_, ?_⟩
  · intro j
    rw [State.goto_result hres]
    exact h.done j
  · intro j r hr
    rw [State.goto_result hres] at hr
    exact h.result j r hr
  · intro k' hk'
    have hik : shard k' ∉ (jobs i).plan :=
      hk' i (next (ops.act o (s.cells (ops.key o))).2) (by simp [State.goto])
    have hne : k' ≠ ops.key o := fun heq => hik (heq ▸ htouch.1)
    change ops.store o s.cells k' = _
    rw [CellOps.store, Function.update_of_ne hne]
    refine h.cells k' fun j p hj => ?_
    by_cases hji : j = i
    · exact hji ▸ hik
    · exact hk' j p (by simpa [State.goto, hji] using hj)
  · intro j p hj
    by_cases hji : j = i
    · subst hji
      obtain rfl : next (ops.act o (s.cells (ops.key o))).2 = p := by simpa [State.goto] using hj
      exact htouch.2 _
    · exact h.touches j p (by simpa [State.goto, hji] using hj)
  · intro j p hj
    by_cases hji : j = i
    · subst hji
      obtain rfl : next (ops.act o (s.cells (ops.key o))).2 = p := by simpa [State.goto] using hj
      exact h.rest j _ hi
    · have hj' : s.pc j = .running p := by simpa [State.goto, hji] using hj
      have hcongr := CellOps.run_congr (fun k => shard k ∈ (jobs j).plan)
        (h.touches j p hj') (fun k' hk' => hcell hji hj' hk')
      obtain ⟨hr, hk⟩ := h.rest j p hj'
      exact ⟨hr.trans hcongr.1, fun k' hk' => (hk k' hk').trans (hcongr.2 k' hk')⟩

omit [DecidableEq L] in
/-- The program ends: the job is the next one of the serial order. -/
theorem SerialInv.finish (hcov : Covered jobs ops shard)
    (h : SerialInv jobs ops c₀ shard order s) (hown : OwnInv jobs s) {r : ρ}
    (hi : s.pc i = .running (.ret r)) :
    SerialInv jobs ops c₀ shard (order ++ [i])
      (s.goto i (.unlocking (jobs i).plan r)) := by
  obtain ⟨hrest, hcells⟩ := h.rest i _ hi
  have hlocked {k : κ} (hk : shard k ∈ (jobs i).plan) :
      (serial jobs ops c₀ (order ++ [i])).1 k = s.cells k := by
    rw [serial_append_singleton]
    exact hcells k hk
  have hnew : i ∉ order := by
    rw [h.done, hi]
    simp [Pc.result]
  have hlist : (serial jobs ops c₀ (order ++ [i])).2 =
      (serial jobs ops c₀ order).2 ++ [(i, r)] := by
    rw [serial_append_singleton, serialStep, hrest]
    rfl
  refine ⟨?_, ?_, ?_, ?_, ?_, ?_⟩
  · refine List.nodup_append.mpr ⟨h.nodup, List.nodup_singleton i, ?_⟩
    intro a ha b hb
    obtain rfl := List.mem_singleton.mp hb
    rintro rfl
    exact hnew ha
  · intro j
    by_cases hji : j = i
    · subst hji; simp [State.goto, Pc.result]
    · simp [State.goto, hji, h.done j]
  · intro j r' hr'
    rw [hlist, List.mem_append]
    by_cases hji : j = i
    · subst hji
      obtain rfl : r = r' := by simpa [State.goto, Pc.result] using hr'
      exact Or.inr (by simp)
    · exact Or.inl (h.result j r' (by simpa [State.goto, hji] using hr'))
  · intro k hk
    by_cases hik : shard k ∈ (jobs i).plan
    · exact (hlocked hik).symm
    · rw [serial_append_frame hcov hik]
      refine h.cells k fun j p hj => ?_
      by_cases hji : j = i
      · exact hji ▸ hik
      · exact hk j p (by simpa [State.goto, hji] using hj)
  · intro j p hj
    by_cases hji : j = i
    · subst hji; simp [State.goto] at hj
    · exact h.touches j p (by simpa [State.goto, hji] using hj)
  · intro j p hj
    by_cases hji : j = i
    · subst hji; simp [State.goto] at hj
    · have hj' : s.pc j = .running p := by simpa [State.goto, hji] using hj
      -- No cell this job can see is one the ending job has touched.
      have hsame : ∀ k, shard k ∈ (jobs j).plan →
          (serial jobs ops c₀ (order ++ [i])).1 k = (serial jobs ops c₀ order).1 k :=
        fun k hk => serial_append_frame hcov fun hik => hji (hown.disjoint hi hj' hik hk)
      have hcongr := CellOps.run_congr (fun k => shard k ∈ (jobs j).plan) (hcov j) hsame
      obtain ⟨hr, hk⟩ := h.rest j p hj'
      exact ⟨hcongr.1.trans hr, fun k hjk => (hcongr.2 k hjk).trans (hk k hjk)⟩

/-- The serial order a step leaves behind: a job joins it when its program
ends. -/
def orderAfter (order : List ι) : Action ι → List ι
  | .finish i => order ++ [i]
  | .call _ | .lock _ | .enter _ | .act _ | .unlock _ | .ret _ => order

theorem SerialInv.step (hcov : Covered jobs ops shard) (hown : OwnInv jobs s)
    (h : SerialInv jobs ops c₀ shard order s) {a : Action ι}
    (hstep : Step jobs ops s a s') :
    SerialInv jobs ops c₀ shard (orderAfter order a) s' := by
  cases hstep with
  | call hi => exact h.goto rfl rfl (by simp [hi]) (by simp) (by rw [hi]; rfl)
  | lock hi hl => exact h.goto rfl rfl (by simp [hi]) (by simp) (by rw [hi]; rfl)
  | enter hi => exact h.enter hcov hown hi
  | act hi => exact h.operate hown hi
  | finish hi => exact h.finish hcov hown hi
  | unlock hi => exact h.goto rfl rfl (by simp [hi]) (by simp) (by rw [hi]; rfl)
  | ret hi => exact h.goto rfl rfl (by simp [hi]) (by simp) (by rw [hi]; rfl)

/-- The events of the run against the serial order. -/
structure RealTime (order : List ι) (evs : List (Action ι)) (s : State ι κ ν L R ρ) :
    Prop where
  called : ∀ i, .call i ∈ evs → s.pc i ≠ .idle
  returned : ∀ i, .ret i ∈ evs → i ∈ order
  before : ∀ i j, Before (.ret i) (.call j) evs → j ∈ order → Before i j order

variable {evs : List (Action ι)} {a : Action ι}

/-- A step moves its own job only, and never back to where it was not
called. -/
theorem Step.exists_pc (hstep : Step jobs ops s a s') :
    ∃ pc, pc ≠ .idle ∧ s'.pc = Function.update s.pc a.job pc := by
  cases hstep <;> exact ⟨_, by simp, rfl⟩

theorem RealTime.called_step (h : RealTime order evs s) (hstep : Step jobs ops s a s') (j : ι)
    (hj : .call j ∈ evs ++ [a]) : s'.pc j ≠ .idle := by
  obtain ⟨pc, hne, hpc⟩ := hstep.exists_pc
  rw [hpc]
  by_cases hja : j = a.job
  · subst hja
    simpa using hne
  · rcases List.mem_append.mp hj with hj | hj
    · simpa [hja] using h.called j hj
    · exact absurd (by rw [← List.mem_singleton.mp hj]; rfl) hja

omit [DecidableEq ι] [DecidableEq κ] [DecidableEq L] in
theorem mem_orderAfter {j : ι} (hj : j ∈ order) : j ∈ orderAfter order a := by
  cases a with
  | finish i => exact List.mem_append_left _ hj
  | call i | lock i | enter i | act i | unlock i | ret i => exact hj

theorem RealTime.returned_step (h : RealTime order evs s)
    (hser : SerialInv jobs ops c₀ shard order s) (hstep : Step jobs ops s a s') (j : ι)
    (hj : .ret j ∈ evs ++ [a]) : j ∈ orderAfter order a := by
  rcases List.mem_append.mp hj with hj | hj
  · exact mem_orderAfter (h.returned j hj)
  · obtain rfl := List.mem_singleton.mp hj
    cases hstep with
    | ret hi => exact (hser.done j).mpr ⟨_, by rw [hi]; rfl⟩

theorem RealTime.before_step (h : RealTime order evs s)
    (hser : SerialInv jobs ops c₀ shard order s) (hstep : Step jobs ops s a s') (i j : ι)
    (hbefore : Before (.ret i) (.call j) (evs ++ [a])) (hj : j ∈ orderAfter order a) :
    Before i j (orderAfter order a) := by
  rcases before_append_singleton.mp hbefore with hold | ⟨_, rfl⟩
  · cases a with
    | finish k =>
        refine before_append_singleton.mpr ?_
        rcases List.mem_append.mp hj with hj | hj
        · exact Or.inl (h.before i j hold hj)
        · obtain ⟨l₁, l₂, l₃, rfl⟩ := hold
          exact Or.inr ⟨h.returned i (by simp), (List.mem_singleton.mp hj).symm⟩
    | call k | lock k | enter k | act k | unlock k | ret k => exact h.before i j hold hj
  · -- The call comes now, so the job is not in the order yet.
    cases hstep with
    | call hidle =>
        obtain ⟨r, hr⟩ := (hser.done j).mp hj
        rw [hidle] at hr
        cases hr

theorem exists_order (hplan : ∀ i, (jobs i).plan.Nodup) (hcov : Covered jobs ops shard)
    (hrun : (system jobs ops c₀).Run evs s) :
    ∃ order, SerialInv jobs ops c₀ shard order s ∧ RealTime order evs s := by
  refine hrun.history (I := fun evs s =>
    ∃ order, SerialInv jobs ops c₀ shard order s ∧ RealTime order evs s) ?_ ?_
  · rintro s rfl
    refine ⟨[], ⟨List.nodup_nil, ?_, ?_, ?_, ?_, ?_⟩, ⟨?_, ?_, ?_⟩⟩ <;>
      simp [State.initial, Pc.result, serial]
  · rintro evs s a hrun ⟨order, hser, hreal⟩ ha
    have hstep : Step jobs ops s a (effect jobs ops s a) := step_effect ha
    have hown := OwnInv.reachable hplan hrun.reachable
    exact ⟨orderAfter order a, hser.step hcov hown hstep, hreal.called_step hstep,
      hreal.returned_step hser hstep, hreal.before_step hser hstep⟩

/-- When no job is between its call and its return, the jobs that returned can
be put in an order that agrees with real time and in which, run one at a time,
they leave the same cells and return the same results. -/
theorem serializable (hplan : ∀ i, (jobs i).plan.Nodup) (hcov : Covered jobs ops shard)
    (hrun : (system jobs ops c₀).Run evs s) (hdone : ∀ i, ¬ (s.pc i).Active) :
    ∃ order : List ι, order.Nodup ∧ (∀ i, i ∈ order ↔ ∃ r, s.pc i = .returned r) ∧
      (serial jobs ops c₀ order).1 = s.cells ∧
      (∀ i r, s.pc i = .returned r → (i, r) ∈ (serial jobs ops c₀ order).2) ∧
      ∀ i j, Before (.ret i) (.call j) evs → Before i j order := by
  obtain ⟨order, hser, hreal⟩ := exists_order hplan hcov hrun
  have hresult (i : ι) (r : ρ) : (s.pc i).result = some r ↔ s.pc i = .returned r := by
    have hi := hdone i
    cases hpc : s.pc i <;> simp_all [Pc.result, Pc.Active]
  have hmem (i : ι) : i ∈ order ↔ ∃ r, s.pc i = .returned r := by
    rw [hser.done i]
    exact exists_congr (hresult i)
  refine ⟨order, hser.nodup, hmem, ?_, ?_, ?_⟩
  · funext k
    refine (hser.cells k fun i p hi => ?_).symm
    have hi' := hdone i
    rw [hi] at hi'
    exact absurd trivial hi'
  · exact fun i r hi => hser.result i r ((hresult i r).mpr hi)
  · intro i j hbefore
    refine hreal.before i j hbefore ((hmem j).mpr ?_)
    obtain ⟨l₁, l₂, l₃, rfl⟩ := hbefore
    have hcalled := hreal.called j (by simp)
    have hj := hdone j
    cases hpc : s.pc j <;> simp_all [Pc.Active]

end Locking
