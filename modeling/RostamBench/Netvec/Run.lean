import RostamBench.Lib.Json
import RostamBench.Netkv.LoadGen

/-!
`run` of `netvec`: the measuring loop of the vector load generator, and how it
compares with the one of `netkv`.

The loop has the shape of its twin: a worker reads the clock, draws a request from
its own source, posts it, and counts the iteration if it began after the warmup.
The two differ in what they make of a failure. Here a failed post is an error and
nothing else, so the report is of the successes (`run_honest`); in `netkv` a failed
operation is counted and sampled like any other, so its report is honest exactly
when no measured operation has failed.
-/

namespace RostamBench.Netvec

open BigEndian Netkv

/-- How a post ends. -/
inductive PostOutcome
  /-- `http.NewRequestWithContext` or `c.Do` returns an error. -/
  | failed (msg : String)
  | response (statusCode : ℤ)
  deriving DecidableEq, Repr

def doPost : PostOutcome → Bool
  | .failed _ => false
  | .response statusCode => decide (statusCode < 300)

/-- What one iteration of a worker sees. -/
structure Reading where
  now : ℤ
  t0 : ℤ
  t1 : ℤ
  outcome : PostOutcome
  deriving DecidableEq, Repr

def Reading.ok (r : Reading) : Bool := doPost r.outcome

/-- `time.Since(t0).Nanoseconds()`. -/
def Reading.latency (r : Reading) : ℤ := r.t1 - r.t0

/-! ### Request bodies -/

def text (s : String) : Bytes := Json.encode s.toList

/-- `strconv.FormatUint(id, 10)`. -/
def formatUint (id : ℕ) : Bytes := Json.encode (Json.natText id)

def writePoint (id : ℕ) (vec : Bytes) : Bytes :=
  text "\x7b\"id\":" ++ formatUint id ++ text ",\"vector\":" ++ vec ++ text "\x7d"

variable {σ : Type*}

/-- `rnd.Intn(points)` and `vecs[rnd.Intn(len(vecs))]`; `none` is a panic. -/
def drawPoint (R : Netkv.Rand σ) (points : ℤ) (vecs : List Bytes) (rng : σ) :
    Option (ℕ × Bytes × σ) :=
  if points ≤ 0 ∨ vecs.length = 0 then none
  else
    let (id, rng) := R.intn points.toNat rng
    let (i, rng) := R.intn vecs.length rng
    (vecs[i]?).map fun vec => (id, vec, rng)

/-- The points of a batch, written one after the other. -/
def drawBatch (R : Netkv.Rand σ) (points : ℤ) (vecs : List Bytes) :
    ℕ → σ → Option (List Bytes × σ)
  | 0, rng => some ([], rng)
  | n + 1, rng => do
      let (id, vec, rng) ← drawPoint R points vecs rng
      let (rest, rng) ← drawBatch R points vecs n rng
      some (writePoint id vec :: rest, rng)

/-- The body of a request, and the source after its draws. -/
def drawBody (R : Netkv.Rand σ) (points batch : ℤ) (vecs : List Bytes) (rng : σ) :
    Option (Bytes × σ) :=
  if 1 < batch then do
    let (pts, rng) ← drawBatch R points vecs batch.toNat rng
    some (text "\x7b\"upsert\":true,\"points\":[" ++ (pts.intersperse (text ",")).flatten ++
      text "]\x7d", rng)
  else do
    let (id, vec, rng) ← drawPoint R points vecs rng
    some (text "\x7b\"upsert\":true,\"id\":" ++ formatUint id ++ text ",\"vector\":" ++ vec ++
      text "\x7d", rng)

/-! ### A worker -/

/-- The local variables of a worker, and the bodies it has posted. -/
structure Worker where
  ops : Int64
  errs : Int64
  lat : List ℤ
  bodies : List Bytes
  status : Status
  deriving DecidableEq

def Worker.initial : Worker :=
  { ops := 0, errs := 0, lat := [], bodies := [], status := .running }

/-- A measured post counts for its batch when it succeeds, and as one error when
it does not. -/
def Worker.measure (w : Worker) (batch : ℤ) (r : Reading) : Worker :=
  if r.ok then { w with ops := w.ops + Int64.ofInt batch, lat := w.lat ++ [r.latency] }
  else { w with errs := w.errs + 1 }

/-- The loop of a worker. -/
def loop (R : Netkv.Rand σ) (points batch : ℤ) (vecs : List Bytes) (win : Window) :
    List Reading → σ → Worker → Worker
  | [], _, w => w
  | r :: rs, rng, w =>
      if win.deadline < r.now then { w with status := .finished }
      else
        match drawBody R points batch vecs rng with
        | none => { w with status := .panicked }
        | some (body, rng) =>
            let w := { w with bodies := w.bodies ++ [body] }
            loop R points batch vecs win rs rng
              (if win.warmDeadline < r.now then w.measure batch r else w)

def worker (R : Netkv.Rand σ) (points batch : ℤ) (vecs : List Bytes) (win : Window) (w : ℕ)
    (readings : List Reading) : Worker :=
  loop R points batch vecs win readings (R.newSource (Int64.ofNat w * 7919 + 1)) .initial

/-! ### The result of a run -/

/-- What the workers of a run see, the order in which they add up their counters,
and the clock when all are done. -/
structure Env (conns : ℕ) where
  start : ℤ
  readings : Fin conns → List Reading
  order : List (Fin conns)
  order_perm : order.Perm (List.finRange conns)
  stop : ℤ

/-- The deadlines of a run that starts at `start`; durations are in seconds, and
multiply with wrap-around. -/
def windowOf (start duration warmup : ℤ) : Window where
  warmDeadline := start + (Int64.ofInt warmup * 1000000000).toInt
  deadline := start + (Int64.ofInt warmup * 1000000000).toInt +
    (Int64.ofInt duration * 1000000000).toInt

/-- `run`, once every worker has finished. -/
def run (R : Netkv.Rand σ) (vecs : List Bytes) (conns : ℕ) (points batch duration warmup : ℤ)
    (env : Env conns) : Option Result :=
  let win := windowOf env.start duration warmup
  let ws := fun w : Fin conns => worker R points batch vecs win w (env.readings w)
  if ∀ w, (ws w).status = .finished then
    some { ops := Tally.addAll env.order fun w => (ws w).ops
           errs := Tally.addAll env.order fun w => (ws w).errs
           elapsed := env.stop - win.warmDeadline
           lat := Tally.merged fun w => (ws w).lat }
  else none

/-- The iterations a worker measures: up to the deadline, past the warmup. -/
def measured (win : Window) (readings : List Reading) : List Reading :=
  (readings.takeWhile fun r => decide (r.now ≤ win.deadline)).filter fun r =>
    decide (win.warmDeadline < r.now)

variable {R : Netkv.Rand σ} {points batch : ℤ} {vecs : List Bytes} {win : Window}

theorem Worker.measure_status (w : Worker) (r : Reading) :
    (w.measure batch r).status = w.status := by
  unfold Worker.measure
  split <;> rfl

/-- What is still to be counted, with `r` counted already and with `r` in front. -/
theorem Worker.measure_counts (w : Worker) (r : Reading) (ms : List Reading) :
    (w.measure batch r).ops + Int64.ofNat (ms.countP Reading.ok) * Int64.ofInt batch =
        w.ops + Int64.ofNat ((r :: ms).countP Reading.ok) * Int64.ofInt batch ∧
      (w.measure batch r).errs + Int64.ofNat (ms.countP fun r => !r.ok) =
        w.errs + Int64.ofNat ((r :: ms).countP fun r => !r.ok) ∧
      (w.measure batch r).lat ++ (ms.filter Reading.ok).map Reading.latency =
        w.lat ++ ((r :: ms).filter Reading.ok).map Reading.latency := by
  cases hok : r.ok with
  | true =>
      refine ⟨?_, ?_, ?_⟩
      · rw [List.countP_cons_of_pos hok, Nat.add_comm, Int64.ofNat_add, Int64.add_mul,
          ← Int64.add_assoc]
        simp [Worker.measure, hok]
      · simp [Worker.measure, hok]
      · simp [Worker.measure, hok]
  | false =>
      refine ⟨?_, ?_, ?_⟩
      · simp [Worker.measure, hok]
      · rw [List.countP_cons_of_pos (by simp [hok]), Nat.add_comm, Int64.ofNat_add,
          ← Int64.add_assoc]
        simp [Worker.measure, hok]
      · simp [Worker.measure, hok]

/-- A worker that finishes has counted and sampled the posts that succeeded. -/
theorem loop_counts {readings : List Reading} {rng : σ} {w : Worker}
    (h : (loop R points batch vecs win readings rng w).status = .finished)
    (hw : w.status ≠ .finished) :
    (loop R points batch vecs win readings rng w).ops =
        w.ops + Int64.ofNat ((measured win readings).countP Reading.ok) * Int64.ofInt batch ∧
      (loop R points batch vecs win readings rng w).errs =
        w.errs + Int64.ofNat ((measured win readings).countP fun r => !r.ok) ∧
      (loop R points batch vecs win readings rng w).lat =
        w.lat ++ ((measured win readings).filter Reading.ok).map Reading.latency := by
  induction readings generalizing rng w with
  | nil => exact absurd h hw
  | cons r rs ih =>
      rw [loop] at h ⊢
      by_cases hlast : win.deadline < r.now
      · have hmeasured : measured win (r :: rs) = [] := by simp [measured, hlast]
        rw [if_pos hlast, hmeasured]
        simp
      · rw [if_neg hlast] at h ⊢
        have hnow : r.now ≤ win.deadline := not_lt.mp hlast
        cases hbody : drawBody R points batch vecs rng with
        | none => simp [hbody] at h
        | some p =>
            obtain ⟨body, rng'⟩ := p
            simp only [hbody] at h ⊢
            by_cases hwarm : win.warmDeadline < r.now
            · have hmeasured : measured win (r :: rs) = r :: measured win rs := by
                simp [measured, hnow, hwarm]
              rw [if_pos hwarm] at h ⊢
              obtain ⟨hops, herrs, hlat⟩ := ih h (by rwa [Worker.measure_status])
              rw [hops, herrs, hlat, hmeasured]
              exact Worker.measure_counts _ r _
            · have hmeasured : measured win (r :: rs) = measured win rs := by
                simp [measured, hnow, hwarm]
              rw [if_neg hwarm] at h ⊢
              rw [hmeasured]
              exact ih h hw

/-- A finished run reports the measured posts that succeeded, each for its batch,
and the others as errors. -/
theorem run_honest {conns : ℕ} {duration warmup : ℤ} {env : Env conns} {res : Result}
    (h : run R vecs conns points batch duration warmup env = some res) :
    Tally.Honest (Tally.all fun w => measured (windowOf env.start duration warmup) (env.readings w))
      Reading.ok Reading.latency (Int64.ofInt batch) res.ops res.errs res.lat := by
  rw [run] at h
  simp only at h
  split at h
  · rename_i hfinished
    obtain rfl := Option.some.inj h
    refine Tally.Reports.all env.order_perm fun w => ?_
    obtain ⟨hops, herrs, hlat⟩ := loop_counts (hfinished w) (by simp [Worker.initial])
    refine ⟨?_, ?_, ?_⟩
    · rw [worker, hops]
      simp [Worker.initial]
    · rw [worker, herrs]
      simp [Worker.initial]
    · rw [worker, hlat]
      simp [Worker.initial]
  · cases h

/-! ### The two generators -/

/-- Both generators report what their measured requests deserve if and only if no
measured operation of the `netkv` run has failed. -/
theorem failures_never_counted_iff {τ : Type*} {S : Netkv.Rand τ} {keys : List Bytes} {op : Op τ}
    {zipf : Bool} {kvConns : ℕ} {dur warm : Int64} {kvEnv : Netkv.Env kvConns} {kvRes : Result}
    (hkv : Netkv.run S keys kvConns dur warm zipf op kvEnv = some kvRes)
    {conns : ℕ} {duration warmup : ℤ} {env : Env conns} {res : Result}
    (hvec : run R vecs conns points batch duration warmup env = some res) :
    (Tally.Honest
        (Tally.all fun w => Netkv.measured (Window.of kvEnv.start dur warm) (kvEnv.readings w))
        (fun r => !r.failed) Netkv.Reading.latency 1 kvRes.ops kvRes.errs kvRes.lat ∧
      Tally.Honest
        (Tally.all fun w => measured (windowOf env.start duration warmup) (env.readings w))
        Reading.ok Reading.latency (Int64.ofInt batch) res.ops res.errs res.lat) ↔
      ∀ w, ∀ r ∈ Netkv.measured (Window.of kvEnv.start dur warm) (kvEnv.readings w),
        r.failed = false := by
  rw [(run_reports hkv).honest_iff]
  constructor
  · rintro ⟨hnone, _⟩ w r hr
    exact hnone r (List.mem_flatMap.mpr ⟨w, List.mem_finRange w, hr⟩)
  · intro hnone
    refine ⟨fun r hr => ?_, run_honest hvec⟩
    obtain ⟨w, _, hr⟩ := List.mem_flatMap.mp hr
    exact hnone w r hr

/-- One worker that gets one answer and then sees the deadline pass. -/
def oneOp (err : Option String) : Netkv.Env 1 where
  start := 0
  readings _ := [⟨1, 1, 4, err⟩, ⟨11, 11, 11, none⟩]
  order := [0]
  order_perm := by decide
  stop := 11

/-- One worker whose first post is rejected and whose second one is taken. -/
def twoPosts : Env 1 where
  start := 0
  readings _ := [⟨1, 1, 2, .response 503⟩, ⟨3, 3, 7, .response 200⟩,
    ⟨5000000000, 5000000000, 5000000000, .failed "closed"⟩]
  order := [0]
  order_perm := by decide
  stop := 5000000000

/-- Every iteration reads its key. -/
def readOp : Op UInt64 := fun rng key => (.get key, rng)

theorem failures_never_counted_iff_one_op :
    ∃ kvRes res, Netkv.run wordRand (mkKeys 1) 1 10 0 false readOp (oneOp none) = some kvRes ∧
      run wordRand [[48]] 1 5 1 2 0 twoPosts = some res ∧
      (Tally.Honest
          (Tally.all fun w =>
            Netkv.measured (Window.of (oneOp none).start 10 0) ((oneOp none).readings w))
          (fun r => !r.failed) Netkv.Reading.latency 1 kvRes.ops kvRes.errs kvRes.lat ∧
        Tally.Honest
          (Tally.all fun w => measured (windowOf twoPosts.start 2 0) (twoPosts.readings w))
          Reading.ok Reading.latency (Int64.ofInt 1) res.ops res.errs res.lat) := by
  have hkv : (Netkv.run wordRand (mkKeys 1) 1 10 0 false readOp (oneOp none)).isSome = true := by
    decide
  have hvec : (run wordRand [[48]] 1 5 1 2 0 twoPosts).isSome = true := by decide
  obtain ⟨kvRes, hkv⟩ := Option.isSome_iff_exists.mp hkv
  obtain ⟨res, hvec⟩ := Option.isSome_iff_exists.mp hvec
  exact ⟨kvRes, res, hkv, hvec, (failures_never_counted_iff hkv hvec).mpr (by decide)⟩

/-- An operation that times out after the warmup is counted and its latency
sampled. -/
theorem failed_op_counted :
    ∃ res, Netkv.run wordRand (mkKeys 1) 1 10 0 false readOp (oneOp (some "timeout")) = some res ∧
      ¬ Tally.Honest
        (Tally.all fun w => Netkv.measured (Window.of (oneOp (some "timeout")).start 10 0)
          ((oneOp (some "timeout")).readings w))
        (fun r => !r.failed) Netkv.Reading.latency 1 res.ops res.errs res.lat := by
  have hrun : (Netkv.run wordRand (mkKeys 1) 1 10 0 false readOp
      (oneOp (some "timeout"))).isSome = true := by decide
  obtain ⟨res, hres⟩ := Option.isSome_iff_exists.mp hrun
  refine ⟨res, hres, fun hhonest => ?_⟩
  exact absurd ((run_reports hres).honest_iff.mp hhonest) (by decide)

end RostamBench.Netvec
