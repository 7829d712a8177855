import RostamBench.Lib.Balance
import RostamBench.Lib.Transition
import RostamBench.Netvec.Bodies
import Mathlib.Data.Multiset.Range

/-!
`runBulk`: staging a collection with several workers, and the build.

The main goroutine cuts the ids below `total` into jobs of `chunk` ids and hands them
over an unbuffered channel. A worker that takes a job writes its points into a body,
posts it, and adds the size of the job to one of two counters. When the jobs are out,
the channel is closed; when the workers are done, the build is posted and one line is
printed.

Three conservation laws hold in every reachable state: the ids of the jobs that were
handed out are those read back from posted bodies and those in the hands of workers, every
posted body is answered or awaited, and the counters lack only what is in the hands of
workers. They
hold as long as the producer's `lo + chunk` stays in an `int`. When the last of them
does not, the end of the last job wraps around and is not clipped, the ids of that job
are lost, and the producer goes on with negative ones.
-/

namespace RostamBench.Netvec

open BigEndian Balance

/-! ### Jobs -/

/-- The ids in the body of a job. -/
def Job.ids (j : Job) : List ℕ := (List.range j.count).map j.pointId

/-- `int64(j.hi-j.lo)`. -/
def Job.size (j : Job) : Int64 := j.hi - j.lo

theorem toNat_toUInt64_of_neg {x : Int64} (hx : x.toInt < 0) :
    (x.toUInt64.toNat : ℤ) = x.toInt + 2 ^ 64 := by
  have hnat : x.toUInt64.toNat = x.toBitVec.toNat := rfl
  have hint : x.toInt = if 2 * x.toBitVec.toNat < 2 ^ 64 then (x.toBitVec.toNat : ℤ)
      else (x.toBitVec.toNat : ℤ) - (2 ^ 64 : ℕ) := BitVec.toInt_eq_toNat_cond x.toBitVec
  rw [hnat]
  split at hint
  · omega
  · omega

theorem toNat_toUInt64_of_nonneg {x : Int64} (hx : 0 ≤ x.toInt) :
    x.toUInt64.toNat = x.toInt.toNat :=
  Int64.toNat_toUInt64_of_le (Int64.le_iff_toInt_le.mpr hx)

theorem Job.pointId_of_nonneg {j : Job} (hlo : 0 ≤ j.lo.toInt) {i : ℕ} (hi : i < j.count) :
    j.pointId i = j.lo.toInt.toNat + i := by
  have hid := Job.toInt_id hi
  rw [Job.pointId, toNat_toUInt64_of_nonneg (by omega), hid]
  omega

/-! ### What a body says -/

/-- The ids in a body, as whoever receives it reads them. -/
def idsIn (body : Bytes) : Option (List ℕ) := do
  let d ← Json.Doc.loads body
  match ← d.get? "points".toList with
  | .arr points => points.mapM fun point => (point.get? "id".toList).bind Json.Doc.nat?
  | _ => none

theorem mapM_map_some {α β γ : Type*} {f : β → Option γ} {g : α → β} {h : α → γ}
    (hf : ∀ a, f (g a) = some (h a)) (as : List α) : (as.map g).mapM f = some (as.map h) := by
  induction as with
  | nil => rfl
  | cons a as ih =>
      rw [List.map_cons, List.mapM_cons, hf, ih]
      rfl

theorem idsIn_of_stageDoc {body : Bytes} {j : Job} {items : ℕ → List Json.Doc}
    (h : Json.Doc.loads body = some (stageDoc j items)) : idsIn body = some j.ids := by
  have hid (i : ℕ) : ((pointDoc (j.pointId i) (items i)).get? "id".toList).bind Json.Doc.nat? =
      some (j.pointId i) :=
    Json.Doc.nat?_natText (j.pointId i)
  rw [idsIn, h]
  exact mapM_map_some hid (List.range j.count)

namespace Bulk

/-! ### Replies -/

/-- The error of `http.Client.Post`; the URL is quoted. -/
structure UrlError where
  op : List Char
  url : List Char
  err : List Char

def UrlError.error (e : UrlError) : List Char := e.op ++ ' ' :: (e.url ++ ':' :: ' ' :: e.err)

inductive Reply
  | failed (err : UrlError)
  | response (statusCode : ℤ) (status body : List Char)

/-- `unicode.IsSpace`. -/
def isSpace (c : Char) : Bool :=
  let n := c.toNat
  (0x09 ≤ n && n ≤ 0x0d) || n == 0x20 || n == 0x85 || n == 0xa0 || n == 0x1680 ||
    (0x2000 ≤ n && n ≤ 0x200a) || n == 0x2028 || n == 0x2029 || n == 0x202f || n == 0x205f ||
    n == 0x3000

/-- `bytes.TrimSpace`. -/
def trimSpace (s : List Char) : List Char :=
  ((s.dropWhile isSpace).reverse.dropWhile isSpace).reverse

/-- The text of an error, if the reply is one. -/
def Reply.failure : Reply → Option (List Char)
  | .failed err => some err.error
  | .response statusCode status body =>
      if 300 ≤ statusCode then some (status ++ ':' :: ' ' :: trimSpace body) else none

/-- The post was answered, and below 300. -/
def Reply.below300 : Reply → Bool
  | .failed _ => false
  | .response statusCode _ _ => decide (statusCode < 300)

theorem Reply.failure_eq_none_iff (r : Reply) : r.failure = none ↔ r.below300 = true := by
  cases r with
  | failed err => simp [Reply.failure, Reply.below300]
  | response statusCode status body => simp [Reply.failure, Reply.below300]

/-- No error has an empty text. -/
theorem Reply.failure_ne_nil (r : Reply) : r.failure ≠ some [] := by
  cases r with
  | failed err => simp [Reply.failure, UrlError.error]
  | response statusCode status body => simp [Reply.failure]

/-! ### The state -/

/-- What `runBulk` is called with, and where its random numbers come from. -/
structure Params (σ : Type*) where
  vecs : List Bytes
  conns : ℕ
  total : Int64
  chunk : Int64
  R : Netkv.Rand σ
  /-- `main` renders a pool of vectors. -/
  vecs_ne_nil : vecs ≠ []
  /-- `json.Marshal` of a `[]float32` is the text of an array. -/
  vecs_arrays : ∀ vec ∈ vecs, ∃ items, Json.Doc.loads vec = some (.arr items)
  /-- `Intn(n)` is below `n`. -/
  intn_lt : ∀ n rng, 0 < n → (R.intn n rng).1 < n

/-- A body that was posted. -/
structure Post where
  job : Job
  body : Bytes

/-- Where a worker is. -/
inductive Pc
  /-- At `range jobs`. -/
  | receiving
  /-- It has a job, and is about to post its body. -/
  | assembling (j : Job)
  | waiting (q : Post)
  /-- The post has ended, and nothing is counted yet. -/
  | answered (q : Post) (r : Reply)
  /-- The failure is counted, and its text not yet stored. -/
  | noting (msg : List Char)
  | done

structure Worker (σ : Type*) where
  pc : Pc
  buf : Bytes
  rng : σ

/-- The line that is printed. -/
inductive Line
  | failed (staged failed : Int64) (buildErr : List Char) (firstErr : Option (List Char))
  | success (staged : Int64)

structure State {σ : Type*} (p : Params σ) where
  lo : Int64
  closed : Bool
  workers : Fin p.conns → Worker σ
  staged : Int64
  failed : Int64
  firstErr : Option (List Char)
  /-- The bodies that were posted, and how the posts ended. -/
  posted : List Post
  answers : List (Post × Reply)
  build : Option Reply
  output : Option Line

/-! ### Steps -/

/-- A step, with what it moves and what comes from outside. -/
inductive Label (conns : ℕ)
  /-- The main goroutine hands its job to a worker. -/
  | send (w : Fin conns)
  | close
  | post (w : Fin conns) (j : Job)
  | answer (w : Fin conns) (q : Post) (r : Reply)
  /-- `atomic.AddInt64`. -/
  | count (w : Fin conns) (q : Post) (r : Reply)
  /-- `firstErr.CompareAndSwap(nil, msg)`. -/
  | note (w : Fin conns) (msg : List Char)
  /-- The worker sees that the channel is closed. -/
  | finish (w : Fin conns)
  | build (r : Reply)

variable {σ : Type*} {p : Params σ}

/-- The job the main goroutine makes of `lo`. -/
def Params.job (p : Params σ) (lo : Int64) : Job :=
  let hi := lo + p.chunk
  { lo := lo, hi := if p.total < hi then p.total else hi }

/-- `vecs[rnd.Intn(len(vecs))]`. -/
def Params.draw (p : Params σ) (rng : σ) : Bytes × σ :=
  (p.vecs.get ⟨(p.R.intn p.vecs.length rng).1,
    p.intn_lt _ rng (List.length_pos_of_ne_nil p.vecs_ne_nil)⟩, (p.R.intn p.vecs.length rng).2)

def Params.draws (p : Params σ) : ℕ → σ → List Bytes × σ
  | 0, rng => ([], rng)
  | n + 1, rng =>
      let (vec, rng) := p.draw rng
      let (vecs, rng) := p.draws n rng
      (vec :: vecs, rng)

/-- The body of a job, in the buffer of the worker. -/
def Params.body (p : Params σ) (j : Job) (w : Worker σ) : Bytes :=
  stageBody j (fun i => (p.draws j.count w.rng).1.getD i []) w.buf

def State.goto (s : State p) (w : Fin p.conns) (pc : Pc) : State p :=
  { s with workers := Function.update s.workers w { s.workers w with pc := pc } }

/-- All workers are done. -/
def State.Finished (s : State p) : Prop := ∀ w, (s.workers w).pc = .done

/-- The `if` at the end. -/
def State.line (s : State p) (r : Reply) : Line :=
  let buildErr := r.failure.getD []
  if buildErr ≠ [] ∨ 0 < s.failed then .failed s.staged s.failed buildErr s.firstErr
  else .success s.staged

def enabled (s : State p) : Label p.conns → Prop
  | .send w => s.lo < p.total ∧ s.closed = false ∧ (s.workers w).pc = .receiving
  | .close => ¬ s.lo < p.total ∧ s.closed = false
  | .post w j => (s.workers w).pc = .assembling j
  | .answer w q _ => (s.workers w).pc = .waiting q
  | .count w q r => (s.workers w).pc = .answered q r
  | .note w msg => (s.workers w).pc = .noting msg
  | .finish w => s.closed = true ∧ (s.workers w).pc = .receiving
  | .build _ => s.closed = true ∧ s.Finished ∧ s.build = none

def effect (s : State p) : Label p.conns → State p
  | .send w => { s.goto w (.assembling (p.job s.lo)) with lo := s.lo + p.chunk }
  | .close => { s with closed := true }
  | .post w j =>
      let q := { job := j, body := p.body j (s.workers w) }
      { s with
        workers := Function.update s.workers w
          { pc := .waiting q, buf := q.body, rng := (p.draws j.count (s.workers w).rng).2 }
        posted := s.posted ++ [q] }
  | .answer w q r => { s.goto w (.answered q r) with answers := s.answers ++ [(q, r)] }
  | .count w q r =>
      match r.failure with
      | some msg => { s.goto w (.noting msg) with failed := s.failed + q.job.size }
      | none => { s.goto w .receiving with staged := s.staged + q.job.size }
  | .note w msg =>
      { s.goto w .receiving with firstErr := if s.firstErr = none then some msg else s.firstErr }
  | .finish w => s.goto w .done
  | .build r => { s with build := some r, output := some (s.line r) }

def initial (p : Params σ) : State p where
  lo := 0
  closed := false
  workers w := { pc := .receiving, buf := [], rng := p.R.newSource (Int64.ofNat w * 7919 + 3) }
  staged := 0
  failed := 0
  firstErr := none
  posted := []
  answers := []
  build := none
  output := none

def system (p : Params σ) : Transition.System (State p) (Label p.conns) where
  init s := s = initial p
  enabled := enabled
  effect := effect

/-! ### What is counted -/

/-- The ids in the body; one that cannot be read has none. -/
def Post.ids (q : Post) : List ℕ := (idsIn q.body).getD []

/-- How many ids are in bodies that were answered below 300, or were not. -/
def answeredIds (ok : Bool) (answers : List (Post × Reply)) : ℕ :=
  ((answers.filter fun a => a.2.below300 == ok).flatMap fun a => a.1.ids).length

/-- The least multiple of `chunk` that is not below `total`. -/
def Params.lastEnd (p : Params σ) : ℤ :=
  (p.total.toInt + p.chunk.toInt - 1) / p.chunk.toInt * p.chunk.toInt

/-- Every `lo + chunk` is an `int`. -/
def Params.Fits (p : Params σ) : Prop := p.lastEnd < 2 ^ 63

/-- What the run has done to the ids: every body can be read, and in the bodies there is
none twice and none at or above `total`. When the workers are done all are in them,
answered and counted. A success means that all are staged and built. -/
structure Accounted (s : State p) : Prop where
  reads : ∀ q ∈ s.posted, (idsIn q.body).isSome
  once : (s.posted.flatMap Post.ids).Nodup
  below : ∀ id ∈ s.posted.flatMap Post.ids, (id : ℤ) < p.total.toInt
  all : s.Finished → (s.posted.flatMap Post.ids).Perm (List.range p.total.toInt.toNat)
  answered : s.Finished → (s.answers.map Prod.fst).Perm s.posted
  counted : s.Finished → s.staged + s.failed = p.total
  staged : s.Finished → s.staged.toInt = answeredIds true s.answers
  success : ∀ n, s.output = some (.success n) →
    n = p.total ∧ s.staged = p.total ∧ ∃ r, s.build = some r ∧ r.below300 = true

/-! ### Posted bodies -/

theorem mem_of_mem_draws {n : ℕ} {rng : σ} {vec : Bytes} (h : vec ∈ (p.draws n rng).1) :
    vec ∈ p.vecs := by
  induction n generalizing rng with
  | zero => cases h
  | succ n ih =>
      rcases List.mem_cons.mp h with rfl | h
      · exact List.get_mem _ _
      · exact ih h

theorem length_draws (n : ℕ) (rng : σ) : (p.draws n rng).1.length = n := by
  induction n generalizing rng with
  | zero => rfl
  | succ n ih => exact congrArg (· + 1) (ih _)

/-- The body of a job is the text of one object with its ids. -/
theorem loads_body (j : Job) (w : Worker σ) :
    ∃ items, Json.Doc.loads (p.body j w) = some (stageDoc j items) := by
  by_cases hj : j.lo < j.hi
  · have hitems : ∀ i, ∃ items, i < j.count →
        Json.Doc.loads ((p.draws j.count w.rng).1.getD i []) = some (.arr items) := by
      intro i
      by_cases hi : i < j.count
      · have hlen : i < (p.draws j.count w.rng).1.length := by rwa [length_draws]
        rw [List.getD_eq_getElem?_getD, List.getElem?_eq_getElem hlen, Option.getD_some]
        obtain ⟨items, hitems⟩ := p.vecs_arrays _ (mem_of_mem_draws (List.getElem_mem hlen))
        exact ⟨items, fun _ => hitems⟩
      · exact ⟨[], fun hlt => absurd hlt hi⟩
    choose items hitems using hitems
    exact ⟨items, loads_stageBody hj hitems w.buf⟩
  · -- what the producer makes of an end that has wrapped around
    have hnone : j.count = 0 := by
      rw [Int64.lt_iff_toInt_lt] at hj
      rw [Job.count]
      omega
    let points : Json.Member :=
      { key := "points".toList, text := ['[', ']'], doc := .arr [], plain := by decide,
        reads := Json.Reads.nilArr }
    have hreads := Json.Reads.obj [points] (by simp)
    have htext : '{' :: (Json.commas ([points].map Json.Member.line) ++ ['}']) =
        "\x7b\"points\":[".toList ++ "]\x7d".toList := by decide
    refine ⟨fun _ => [], ?_⟩
    rw [Params.body, stageBody_eq, stageDoc, hnone]
    show Json.Doc.loads (text _ ++ text _) = _
    rw [text, text, ← Json.encode_append, ← htext]
    exact loads_encode_of_reads hreads

/-- Every posted body is the text of one object, with the ids of its job. -/
theorem posted_bodies_parse {s : State p} (hs : (system p).Reachable s) :
    ∀ q ∈ s.posted, ∃ items, Json.Doc.loads q.body = some (stageDoc q.job items) := by
  refine Transition.System.Reachable.invariant (I := fun s => ∀ q ∈ s.posted,
    ∃ items, Json.Doc.loads q.body = some (stageDoc q.job items)) ?_ ?_ hs
  · rintro s rfl q hq
    cases hq
  · intro s e _ ih _ q hq
    cases e with
    | post w j =>
        rcases List.mem_append.mp hq with hq | hq
        · exact ih q hq
        · obtain rfl := List.mem_singleton.mp hq
          exact loads_body j _
    | count w q' r =>
        refine ih q ?_
        revert hq
        simp only [system, effect]
        split
        · exact id
        · exact id
    | send _ | close | answer _ _ _ | note _ _ | finish _ | build _ => exact ih q hq

/-- The body is that of the job. -/
def Post.Says (q : Post) : Prop := idsIn q.body = some q.job.ids

theorem Post.Says.ids {q : Post} (h : q.Says) : q.ids = q.job.ids := by
  rw [Post.ids, h]
  rfl

theorem says_of_body (j : Job) (w : Worker σ) : ({ job := j, body := p.body j w } : Post).Says := by
  obtain ⟨items, h⟩ := loads_body (p := p) j w
  exact idsIn_of_stageDoc h

theorem says_of_posted {s : State p} (hs : (system p).Reachable s) {q : Post}
    (hq : q ∈ s.posted) : q.Says := by
  obtain ⟨items, h⟩ := posted_bodies_parse hs q hq
  exact idsIn_of_stageDoc h

/-! ### Good jobs -/

/-- A job below `total`. -/
structure Good (p : Params σ) (j : Job) : Prop where
  nonneg : 0 ≤ j.lo.toInt
  le : j.lo.toInt ≤ j.hi.toInt
  below : j.hi.toInt ≤ p.total.toInt

variable {j : Job}

theorem Good.ids (h : Good p j) :
    Multiset.range j.lo.toInt.toNat + ↑j.ids = Multiset.range j.hi.toInt.toNat := by
  have hids : j.ids = (List.range j.count).map (j.lo.toInt.toNat + ·) := by
    apply List.map_congr_left
    intro i hi
    exact Job.pointId_of_nonneg h.nonneg (List.mem_range.mp hi)
  have hhi : j.hi.toInt.toNat = j.lo.toInt.toNat + j.count := by
    have hnonneg := h.nonneg
    have hle := h.le
    rw [Job.count]
    omega
  rw [hids, hhi, Multiset.range_add]
  rfl

theorem Good.size (h : Good p j) : j.size.toInt = j.ids.length := by
  have hnonneg := h.nonneg
  have hle := h.le
  have hlt := j.hi.toInt_lt
  have hcount : j.ids.length = j.count := by simp [Job.ids]
  rw [hcount, Job.size, Int64.toInt_sub, Job.count, Int.bmod_eq_of_le (by omega) (by omega)]
  omega

/-! ### The producer -/

section Producer

variable (htotal : 0 ≤ p.total.toInt) (hchunk : 1 ≤ p.chunk.toInt)

include hchunk in
theorem lastEnd_bounds : p.total.toInt ≤ p.lastEnd ∧ p.lastEnd < p.total.toInt + p.chunk.toInt := by
  have hdiv := Int.mul_ediv_add_emod (p.total.toInt + p.chunk.toInt - 1) p.chunk.toInt
  have hmod := Int.emod_nonneg (p.total.toInt + p.chunk.toInt - 1) (b := p.chunk.toInt) (by omega)
  have hlt := Int.emod_lt_of_pos (p.total.toInt + p.chunk.toInt - 1) (b := p.chunk.toInt) (by omega)
  rw [Params.lastEnd, Int.mul_comm]
  omega

theorem chunk_dvd_lastEnd : p.chunk.toInt ∣ p.lastEnd := Int.dvd_mul_left _ _

include hchunk in
/-- The next start is at most the last end. -/
theorem add_chunk_le_lastEnd {lo : ℤ} (hdvd : p.chunk.toInt ∣ lo) (hlo : lo < p.total.toInt) :
    lo + p.chunk.toInt ≤ p.lastEnd := by
  have hbounds := lastEnd_bounds hchunk
  have hle := Int.le_of_dvd (by omega) (Int.dvd_sub chunk_dvd_lastEnd hdvd)
  omega

theorem toInt_add_chunk {lo : Int64} (hnonneg : 0 ≤ lo.toInt) (hchunk : 1 ≤ p.chunk.toInt)
    (hlt : lo.toInt + p.chunk.toInt < 2 ^ 63) :
    (lo + p.chunk).toInt = lo.toInt + p.chunk.toInt := by
  rw [Int64.toInt_add, Int.bmod_eq_of_le (by omega) (by omega)]

/-- The job that starts at `lo`, if nothing wraps around. -/
theorem good_job {lo : Int64} (hnonneg : 0 ≤ lo.toInt) (hlo : lo.toInt < p.total.toInt)
    (hchunk : 1 ≤ p.chunk.toInt) (hlt : lo.toInt + p.chunk.toInt < 2 ^ 63) :
    Good p (p.job lo) ∧ (p.job lo).hi.toInt = min (lo.toInt + p.chunk.toInt) p.total.toInt := by
  have hhi : (p.job lo).hi.toInt = min (lo.toInt + p.chunk.toInt) p.total.toInt := by
    have hadd := toInt_add_chunk hnonneg hchunk hlt
    rw [Params.job]
    dsimp only
    split
    · rename_i hclip
      rw [Int64.lt_iff_toInt_lt, hadd] at hclip
      omega
    · rename_i hclip
      rw [Int64.lt_iff_toInt_lt, hadd] at hclip
      omega
  refine ⟨⟨hnonneg, ?_, ?_⟩, hhi⟩
  · show lo.toInt ≤ (p.job lo).hi.toInt
    omega
  · omega

end Producer

/-! ### What workers hold -/

/-- A worker has a good job, and the body it has posted is that of the job. -/
def Pc.Sound (p : Params σ) : Pc → Prop
  | .assembling j => Good p j
  | .waiting q | .answered q _ => Good p q.job ∧ q.Says
  | .receiving | .noting _ | .done => True

/-- A worker has no job. -/
def Pc.Idle : Pc → Prop
  | .receiving | .noting _ | .done => True
  | .assembling _ | .waiting _ | .answered _ _ => False

/-- The ids that are handed out and not posted. -/
def holdIds (w : Worker σ) : Multiset ℕ :=
  match w.pc with
  | .assembling j => ↑j.ids
  | _ => 0

/-- The post that has not ended. -/
def holdPost (w : Worker σ) : Multiset Post :=
  match w.pc with
  | .waiting q => {q}
  | _ => 0

/-- The ids that are answered and not counted. -/
def holdCount (ok : Bool) (w : Worker σ) : ℕ :=
  match w.pc with
  | .answered q r => if r.below300 = ok then q.ids.length else 0
  | _ => 0

/-- A counter and the ids it counts. -/
def Counts (s : State p) (ok : Bool) (counter : Int64) : Prop :=
  ∃ n : ℕ, counter.toInt = n ∧
    Conserved (holdCount ok) s.workers n (answeredIds ok s.answers)

/-- The invariant. -/
structure Inv (s : State p) : Prop where
  dvd : p.chunk.toInt ∣ s.lo.toInt
  nonneg : 0 ≤ s.lo.toInt
  le_lastEnd : s.lo.toInt ≤ p.lastEnd
  closed : s.closed = true → p.total.toInt ≤ s.lo.toInt
  ids : Conserved holdIds s.workers ↑(s.posted.flatMap Post.ids)
    (Multiset.range (min s.lo.toInt p.total.toInt).toNat)
  posts : Conserved holdPost s.workers ↑(s.answers.map Prod.fst) ↑s.posted
  staged : Counts s true s.staged
  failed : Counts s false s.failed
  sound : ∀ w, (s.workers w).pc.Sound p
  done : ∀ w, (s.workers w).pc = .done → s.closed = true
  output : ∀ l, s.output = some l →
    s.closed = true ∧ s.Finished ∧ ∃ r, s.build = some r ∧ l = s.line r
  unbuilt : s.output = none → s.build = none

theorem length_flatMap_ids (posts : List Post) :
    (posts.flatMap Post.ids).length = ((posts : Multiset Post).map fun q => q.ids.length).sum := by
  simp [List.length_flatMap, Multiset.map_coe, Multiset.sum_coe]

theorem answeredIds_add (answers : List (Post × Reply)) :
    answeredIds true answers + answeredIds false answers =
      ((answers.map Prod.fst).flatMap Post.ids).length := by
  induction answers with
  | nil => rfl
  | cons a answers ih =>
      unfold answeredIds at ih ⊢
      cases hok : a.2.below300 with
      | true => simp [hok] at ih ⊢; omega
      | false => simp [hok] at ih ⊢; omega

theorem answeredIds_concat (ok : Bool) (answers : List (Post × Reply)) (q : Post) (r : Reply) :
    answeredIds ok (answers ++ [(q, r)]) =
      answeredIds ok answers + if r.below300 = ok then q.ids.length else 0 := by
  unfold answeredIds
  rw [List.filter_append, List.flatMap_append, List.length_append]
  by_cases hok : r.below300 = ok
  · simp [hok]
  · simp [hok]

section Bounds

variable {s : State p} (h : Inv s)
include h

theorem Inv.length_posted_le (htotal : 0 ≤ p.total.toInt) :
    ((s.posted.flatMap Post.ids).length : ℤ) ≤ p.total.toInt := by
  have hcard := congrArg Multiset.card h.ids
  rw [Multiset.card_add, Multiset.coe_card, Multiset.card_range] at hcard
  have hnonneg := h.nonneg
  omega

/-- The counters count no more ids than there are. -/
theorem Inv.answeredIds_le (htotal : 0 ≤ p.total.toInt) :
    ((answeredIds true s.answers + answeredIds false s.answers : ℕ) : ℤ) ≤ p.total.toInt := by
  have hposted := h.length_posted_le htotal
  rw [answeredIds_add]
  rw [length_flatMap_ids] at hposted ⊢
  rw [← h.posts, Multiset.map_add, Multiset.sum_add] at hposted
  omega

end Bounds

/-! ### Steps keep the invariant -/

section Steps

variable {s : State p} {w : Fin p.conns} {x : Worker σ}

theorem Counts.keep {s' : State p} {ok : Bool} {counter : Int64} (h : Counts s ok counter)
    (hworkers : s'.workers = Function.update s.workers w x) (hanswers : s'.answers = s.answers)
    (hkeep : holdCount ok x = holdCount ok (s.workers w)) : Counts s' ok counter := by
  obtain ⟨n, hn, hconserved⟩ := h
  refine ⟨n, hn, ?_⟩
  rw [hworkers, hanswers]
  exact hconserved.keep hkeep

/-- While a worker is not done, nothing is printed. -/
theorem Inv.output_eq_none (h : Inv s) (hw : (s.workers w).pc ≠ .done) : s.output = none := by
  cases hout : s.output with
  | none => rfl
  | some l => exact absurd ((h.output l hout).2.1 w) hw

theorem Inv.sound_update (h : Inv s) (hx : x.pc.Sound p) :
    ∀ w', (Function.update s.workers w x w').pc.Sound p := by
  intro w'
  by_cases hw : w' = w
  · subst hw
    rw [Function.update_self]
    exact hx
  · rw [Function.update_of_ne hw]
    exact h.sound w'

theorem Inv.done_update (h : Inv s) (hx : x.pc = .done → s.closed = true) :
    ∀ w', (Function.update s.workers w x w').pc = .done → s.closed = true := by
  intro w' hw'
  by_cases hw : w' = w
  · subst hw
    rw [Function.update_self] at hw'
    exact hx hw'
  · rw [Function.update_of_ne hw] at hw'
    exact h.done w' hw'

/-- A step of a worker, by the laws it must keep. -/
theorem Inv.moved {s' : State p} (h : Inv s) (hw : (s.workers w).pc ≠ .done)
    (hworkers : s'.workers = Function.update s.workers w x) (hlo : s'.lo = s.lo)
    (hclosed : s'.closed = s.closed) (houtput : s'.output = s.output)
    (hbuild : s'.build = s.build) (hsound : x.pc.Sound p)
    (hdone : x.pc = .done → s.closed = true)
    (hids : Conserved holdIds s'.workers ↑(s'.posted.flatMap Post.ids)
      (Multiset.range (min s.lo.toInt p.total.toInt).toNat))
    (hposts : Conserved holdPost s'.workers ↑(s'.answers.map Prod.fst) ↑s'.posted)
    (hstaged : Counts s' true s'.staged) (hfailed : Counts s' false s'.failed) : Inv s' where
  dvd := by rw [hlo]; exact h.dvd
  nonneg := by rw [hlo]; exact h.nonneg
  le_lastEnd := by rw [hlo]; exact h.le_lastEnd
  closed := by rw [hclosed, hlo]; exact h.closed
  ids := by rw [hlo]; exact hids
  posts := hposts
  staged := hstaged
  failed := hfailed
  sound := by rw [hworkers]; exact h.sound_update hsound
  done := by rw [hworkers, hclosed]; exact h.done_update hdone
  output := by
    intro l hl
    rw [houtput, h.output_eq_none hw] at hl
    cases hl
  unbuilt := by rw [houtput, hbuild]; exact h.unbuilt

/-- Where the producer goes on from after a job. -/
theorem Inv.toInt_lo_add (hfits : p.Fits) (hchunk : 1 ≤ p.chunk.toInt) (h : Inv s)
    (hlt : s.lo < p.total) :
    (s.lo + p.chunk).toInt = s.lo.toInt + p.chunk.toInt ∧
      s.lo.toInt + p.chunk.toInt ≤ p.lastEnd := by
  have hlo := Int64.lt_iff_toInt_lt.mp hlt
  have hnext := add_chunk_le_lastEnd hchunk h.dvd hlo
  exact ⟨toInt_add_chunk h.nonneg hchunk (lt_of_le_of_lt hnext hfits), hnext⟩

theorem Inv.send (hfits : p.Fits) (hchunk : 1 ≤ p.chunk.toInt) (h : Inv s)
    (he : enabled s (.send w)) : Inv (effect s (.send w)) := by
  obtain ⟨hlt, hopen, hpc⟩ := he
  have hlo := Int64.lt_iff_toInt_lt.mp hlt
  obtain ⟨hadd, hnext⟩ := h.toInt_lo_add hfits hchunk hlt
  obtain ⟨hgood, hhi⟩ := good_job h.nonneg hlo hchunk (lt_of_le_of_lt hnext hfits)
  have hw : (s.workers w).pc ≠ .done := by simp [hpc]
  refine ⟨?_, ?_, ?_, ?_, ?_, ?_, ?_, ?_, ?_, ?_, ?_, h.unbuilt⟩
  · show p.chunk.toInt ∣ (s.lo + p.chunk).toInt
    rw [hadd]
    exact Int.dvd_add h.dvd (Int.dvd_refl _)
  · show 0 ≤ (s.lo + p.chunk).toInt
    have hnonneg := h.nonneg
    omega
  · show (s.lo + p.chunk).toInt ≤ p.lastEnd
    omega
  · intro hclosed
    rw [show (effect s (.send w)).closed = s.closed from rfl, hopen] at hclosed
    cases hclosed
  · have hids := hgood.ids
    rw [show (p.job s.lo).lo = s.lo from rfl, hhi] at hids
    have hmin : min s.lo.toInt p.total.toInt = s.lo.toInt := by omega
    show Conserved holdIds (Function.update s.workers w _) _
      (Multiset.range (min (s.lo + p.chunk).toInt p.total.toInt).toNat)
    rw [hadd, ← hids, ← hmin]
    apply h.ids.move
    simp only [holdIds, hpc, add_zero]
    rfl
  · exact h.posts.keep (by simp [holdPost, hpc])
  · exact h.staged.keep rfl rfl (by simp [holdCount, hpc])
  · exact h.failed.keep rfl rfl (by simp [holdCount, hpc])
  · exact h.sound_update hgood
  · exact h.done_update (by simp)
  · intro l hl
    rw [show (effect s (.send w)).output = s.output from rfl, h.output_eq_none hw] at hl
    cases hl

theorem Inv.close (h : Inv s) (he : enabled s .close) : Inv (effect s .close) := by
  obtain ⟨hlo, hopen⟩ := he
  rw [Int64.lt_iff_toInt_lt] at hlo
  refine { h with closed := ?_, done := ?_, output := ?_ }
  · intro _
    exact Int.not_lt.mp hlo
  · intro _ _
    rfl
  · intro l hl
    have hclosed := (h.output l hl).1
    rw [hopen] at hclosed
    cases hclosed

theorem Inv.post {j : Job} (h : Inv s) (he : enabled s (.post w j)) :
    Inv (effect s (.post w j)) := by
  have hpc : (s.workers w).pc = .assembling j := he
  let q : Post := { job := j, body := p.body j (s.workers w) }
  have hread : q.Says := says_of_body j (s.workers w)
  have hgood : Good p j := by simpa [hpc, Pc.Sound] using h.sound w
  refine h.moved (w := w) (by simp [hpc]) rfl rfl rfl rfl rfl ⟨hgood, hread⟩ (by simp) ?_ ?_ ?_ ?_
  · have hmove : Conserved holdIds (effect s (.post w j)).workers
        ↑((s.posted ++ [q]).flatMap Post.ids)
        (Multiset.range (min s.lo.toInt p.total.toInt).toNat + 0) := by
      apply h.ids.move
      simp [holdIds, hpc, hread.ids, q]
    rwa [add_zero] at hmove
  · show Conserved holdPost _ ↑(s.answers.map Prod.fst)
      ((s.posted ++ [q] : List Post) : Multiset Post)
    rw [← Multiset.coe_add]
    apply h.posts.move
    simp [holdPost, hpc, q]
  · exact h.staged.keep rfl rfl (by simp [holdCount, hpc])
  · exact h.failed.keep rfl rfl (by simp [holdCount, hpc])

theorem Inv.answer {q : Post} {r : Reply} (h : Inv s) (he : enabled s (.answer w q r)) :
    Inv (effect s (.answer w q r)) := by
  have hpc : (s.workers w).pc = .waiting q := he
  have hcounts {ok : Bool} {counter : Int64} (hcounts : Counts s ok counter) :
      Counts (effect s (.answer w q r)) ok counter := by
    obtain ⟨n, hn, hconserved⟩ := hcounts
    refine ⟨n, hn, ?_⟩
    show Conserved (holdCount ok) _ n (answeredIds ok (s.answers ++ [(q, r)]))
    rw [answeredIds_concat]
    apply hconserved.move
    simp [holdCount, hpc]
  have hsound : Good p q.job ∧ q.Says := by simpa [hpc, Pc.Sound] using h.sound w
  refine h.moved (w := w) (by simp [hpc]) rfl rfl rfl rfl rfl hsound (by simp) ?_ ?_ ?_ ?_
  · exact h.ids.keep (by simp [holdIds, hpc])
  · have hmove : Conserved holdPost (effect s (.answer w q r)).workers
        ↑((s.answers ++ [(q, r)]).map Prod.fst) (↑s.posted + 0) := by
      apply h.posts.move
      rw [List.map_append, ← Multiset.coe_add]
      simp [holdPost, hpc]
    rwa [add_zero] at hmove
  · exact hcounts h.staged
  · exact hcounts h.failed

/-- The size of a job is added to its counter, which does not wrap around. -/
theorem Inv.counts_add {s' : State p} {ok : Bool} {counter : Int64} {q : Post} {r : Reply}
    (h : Inv s) (htotal : 0 ≤ p.total.toInt) (hcounts : Counts s ok counter)
    (hpc : (s.workers w).pc = .answered q r) (hok : r.below300 = ok)
    (hworkers : s'.workers = Function.update s.workers w x) (hanswers : s'.answers = s.answers)
    (hx : holdCount ok x = 0) : Counts s' ok (counter + q.job.size) := by
  obtain ⟨n, hn, hconserved⟩ := hcounts
  have hhold : holdCount ok (s.workers w) = q.ids.length := by simp [holdCount, hpc, hok]
  obtain ⟨hgood, hread⟩ : Good p q.job ∧ q.Says := by simpa [hpc, Pc.Sound] using h.sound w
  have hsize := hgood.size
  have hlen : q.ids.length = q.job.ids.length := by rw [hread.ids]
  have hle : n + q.ids.length ≤ answeredIds ok s.answers := by
    have hone := Finset.single_le_sum (f := fun w => holdCount ok (s.workers w))
      (fun _ _ => Nat.zero_le _) (Finset.mem_univ w)
    rw [Conserved] at hconserved
    omega
  have hbound : ((n + q.ids.length : ℕ) : ℤ) ≤ p.total.toInt := by
    have hall := h.answeredIds_le htotal
    cases ok with
    | true => omega
    | false => omega
  have hlt := p.total.toInt_lt
  refine ⟨n + q.ids.length, ?_, ?_⟩
  · rw [Int64.toInt_add, Int.bmod_eq_of_le (by omega) (by omega)]
    omega
  · have hmove : Conserved (holdCount ok) (Function.update s.workers w x) (n + q.ids.length)
        (answeredIds ok s.answers + 0) := by
      apply hconserved.move
      rw [hx, hhold]
    rwa [hworkers, hanswers]

theorem Inv.count {q : Post} {r : Reply} (h : Inv s) (htotal : 0 ≤ p.total.toInt)
    (he : enabled s (.count w q r)) : Inv (effect s (.count w q r)) := by
  have hpc : (s.workers w).pc = .answered q r := he
  cases hfailure : r.failure with
  | some msg =>
      have hok : r.below300 = false := by
        rw [Bool.eq_false_iff, Ne, ← Reply.failure_eq_none_iff, hfailure]
        simp
      have heffect : effect s (.count w q r) =
          { s.goto w (.noting msg) with failed := s.failed + q.job.size } := by
        simp only [effect, hfailure]
      rw [heffect]
      refine h.moved (w := w) (by simp [hpc]) rfl rfl rfl rfl rfl trivial (by simp) ?_ ?_
        ?_ ?_
      · exact h.ids.keep (by simp [holdIds, hpc])
      · exact h.posts.keep (by simp [holdPost, hpc])
      · exact h.staged.keep rfl rfl (by simp [holdCount, hpc, hok])
      · exact h.counts_add htotal h.failed hpc hok rfl rfl rfl
  | none =>
      have hok := (Reply.failure_eq_none_iff r).mp hfailure
      have heffect : effect s (.count w q r) =
          { s.goto w .receiving with staged := s.staged + q.job.size } := by
        simp only [effect, hfailure]
      rw [heffect]
      refine h.moved (w := w) (by simp [hpc]) rfl rfl rfl rfl rfl trivial (by simp) ?_ ?_
        ?_ ?_
      · exact h.ids.keep (by simp [holdIds, hpc])
      · exact h.posts.keep (by simp [holdPost, hpc])
      · exact h.counts_add htotal h.staged hpc hok rfl rfl rfl
      · exact h.failed.keep rfl rfl (by simp [holdCount, hpc, hok])

/-- A worker that holds nothing goes to where it holds nothing. -/
theorem Inv.idle {s' : State p} (pc : Pc) (h : Inv s) (hw : (s.workers w).pc ≠ .done)
    (hold : (s.workers w).pc.Idle) (hnew : pc.Idle)
    (hdone : pc = .done → s.closed = true) (hworkers : s'.workers = (s.goto w pc).workers)
    (hlo : s'.lo = s.lo) (hclosed : s'.closed = s.closed) (houtput : s'.output = s.output)
    (hbuild : s'.build = s.build) (hposted : s'.posted = s.posted)
    (hanswers : s'.answers = s.answers) (hstaged : s'.staged = s.staged) (hfailed : s'.failed = s.failed) : Inv s' := by
  have hnone {v : Worker σ} (hv : v.pc.Idle) :
      holdIds v = 0 ∧ holdPost v = 0 ∧ ∀ ok, holdCount ok v = 0 := by
    unfold holdIds holdPost holdCount
    cases hpc : v.pc with
    | receiving | noting _ | done => exact ⟨rfl, rfl, fun _ => rfl⟩
    | assembling _ | waiting _ | answered _ _ => simp [hpc, Pc.Idle] at hv
  obtain ⟨hids, hpost, hcount⟩ := hnone hold
  have hnew' := hnone (v := { s.workers w with pc := pc }) hnew
  refine h.moved (w := w) (x := { s.workers w with pc := pc }) hw hworkers hlo hclosed houtput
    hbuild ?_ hdone ?_ ?_ ?_ ?_
  · show pc.Sound p
    cases pc with
    | receiving | noting _ | done => trivial
    | assembling _ | waiting _ | answered _ _ => exact hnew.elim
  · rw [hworkers, hposted]
    exact h.ids.keep (by rw [hids, hnew'.1])
  · rw [hworkers, hposted, hanswers]
    exact h.posts.keep (by rw [hpost, hnew'.2.1])
  · rw [hstaged]
    exact h.staged.keep hworkers hanswers (by rw [hcount, hnew'.2.2])
  · rw [hfailed]
    exact h.failed.keep hworkers hanswers (by rw [hcount, hnew'.2.2])

theorem Inv.note {msg : List Char} (h : Inv s) (he : enabled s (.note w msg)) :
    Inv (effect s (.note w msg)) := by
  have hpc : (s.workers w).pc = .noting msg := he
  exact Inv.idle (w := w) .receiving h (by simp [hpc]) (by simp [hpc, Pc.Idle]) trivial (by simp)
    rfl rfl rfl rfl rfl rfl rfl rfl rfl

theorem Inv.finish (h : Inv s) (he : enabled s (.finish w)) : Inv (effect s (.finish w)) := by
  obtain ⟨hclosed, hpc⟩ := he
  exact Inv.idle (w := w) .done h (by simp [hpc]) (by simp [hpc, Pc.Idle]) trivial
    (fun _ => hclosed) rfl rfl rfl rfl rfl rfl rfl rfl rfl

theorem Inv.build {r : Reply} (h : Inv s) (he : enabled s (.build r)) :
    Inv (effect s (.build r)) := by
  obtain ⟨hclosed, hfinished, hbuild⟩ := he
  refine { h with output := ?_, unbuilt := ?_ }
  · intro l hl
    obtain rfl : s.line r = l := by simpa [effect] using hl
    exact ⟨hclosed, hfinished, r, rfl, rfl⟩
  · intro hnone
    cases hnone

end Steps

theorem Inv.initial (htotal : 0 ≤ p.total.toInt) (hchunk : 1 ≤ p.chunk.toInt) :
    Inv (initial p) where
  dvd := Int.dvd_zero _
  nonneg := Int.le_refl 0
  le_lastEnd := le_trans htotal (lastEnd_bounds hchunk).1
  closed := by simp [Bulk.initial]
  ids := by
    have hmin : min (Bulk.initial p).lo.toInt p.total.toInt = 0 := by
      show min (0 : Int64).toInt p.total.toInt = 0
      rw [Int64.toInt_zero]
      omega
    rw [hmin]
    exact Conserved.of_forall (fun _ => rfl) _
  posts := Conserved.of_forall (fun _ => rfl) _
  staged := ⟨0, rfl, Conserved.of_forall (fun _ => rfl) _⟩
  failed := ⟨0, rfl, Conserved.of_forall (fun _ => rfl) _⟩
  sound _ := trivial
  done := by simp [Bulk.initial]
  output := by simp [Bulk.initial]
  unbuilt _ := rfl

/-- The invariant holds in every reachable state, if the last end is an `int`. -/
theorem Inv.reachable (htotal : 0 ≤ p.total.toInt) (hchunk : 1 ≤ p.chunk.toInt) (hfits : p.Fits)
    {s : State p} (hs : (system p).Reachable s) : Inv s := by
  refine Transition.System.Reachable.invariant ?_ ?_ hs
  · rintro s rfl
    exact Inv.initial htotal hchunk
  · intro s e _ h he
    cases e with
    | send w => exact h.send hfits hchunk he
    | close => exact h.close he
    | post w j => exact h.post he
    | answer w q r => exact h.answer he
    | count w q r => exact h.count htotal he
    | note w msg => exact h.note he
    | finish w => exact h.finish he
    | build r => exact h.build he

/-! ### The account of a run -/

section Account

variable {s : State p} (h : Inv s)
include h

/-- When the workers are done, every worker holds nothing and all jobs are out. -/
theorem Inv.settled (hconns : 0 < p.conns) (hfinished : s.Finished) :
    (s.posted.flatMap Post.ids).Perm (List.range p.total.toInt.toNat) ∧
      (s.answers.map Prod.fst).Perm s.posted ∧
      s.staged.toInt = answeredIds true s.answers ∧
      s.failed.toInt = answeredIds false s.answers := by
  have hclosed := h.closed (h.done ⟨0, hconns⟩ (hfinished _))
  have hmin : min s.lo.toInt p.total.toInt = p.total.toInt := by omega
  refine ⟨?_, ?_, ?_, ?_⟩
  · have hids := h.ids.settled fun w => by simp [holdIds, hfinished w]
    rw [hmin] at hids
    exact Multiset.coe_eq_coe.mp hids
  · exact Multiset.coe_eq_coe.mp (h.posts.settled fun w => by simp [holdPost, hfinished w])
  · obtain ⟨n, hn, hconserved⟩ := h.staged
    rw [hn, hconserved.settled fun w => by simp [holdCount, hfinished w]]
  · obtain ⟨n, hn, hconserved⟩ := h.failed
    rw [hn, hconserved.settled fun w => by simp [holdCount, hfinished w]]

/-- The counters of a finished run make up the total. -/
theorem Inv.counted (htotal : 0 ≤ p.total.toInt) (hconns : 0 < p.conns)
    (hfinished : s.Finished) : s.staged.toInt + s.failed.toInt = p.total.toInt := by
  obtain ⟨hids, hanswers, hstaged, hfailed⟩ := h.settled hconns hfinished
  have hlen := (hanswers.flatMap_right Post.ids).length_eq
  rw [← answeredIds_add, hids.length_eq, List.length_range] at hlen
  omega

/-- A success is printed when the build has succeeded and no id has failed. -/
theorem Inv.success (htotal : 0 ≤ p.total.toInt) (hconns : 0 < p.conns) {n : Int64}
    (hout : s.output = some (.success n)) :
    n = p.total ∧ s.staged = p.total ∧ ∃ r, s.build = some r ∧ r.below300 = true := by
  obtain ⟨-, hfinished, r, hbuild, hline⟩ := h.output _ hout
  rw [State.line] at hline
  split at hline
  · cases hline
  · rename_i hcond
    obtain ⟨herr, hnone⟩ := not_or.mp hcond
    obtain rfl : n = s.staged := by simpa using hline
    have hok : r.below300 = true := by
      rw [← Reply.failure_eq_none_iff]
      cases hfailure : r.failure with
      | none => rfl
      | some msg =>
          have hmsg : msg = [] := by simpa [hfailure] using herr
          exact absurd (hmsg ▸ hfailure) r.failure_ne_nil
    have hstaged : s.staged = p.total := by
      have hcounted := h.counted htotal hconns hfinished
      have hfailed := (h.settled hconns hfinished).2.2.2
      rw [Int64.lt_iff_toInt_lt, Int64.toInt_zero] at hnone
      apply Int64.toInt_inj.mp
      omega
    exact ⟨hstaged, hstaged, r, hbuild, hok⟩

theorem Inv.accounted (htotal : 0 ≤ p.total.toInt) (hconns : 0 < p.conns)
    (hread : ∀ q ∈ s.posted, q.Says) : Accounted s where
  reads q hq := Option.isSome_of_eq_some (hread q hq)
  once := by
    have hle : ((s.posted.flatMap Post.ids : List ℕ) : Multiset ℕ) ≤
        Multiset.range (min s.lo.toInt p.total.toInt).toNat := by
      rw [← h.ids]
      exact Multiset.le_add_right _ _
    exact Multiset.coe_nodup.mp (Multiset.nodup_of_le hle (Multiset.nodup_range _))
  below := by
    intro id hid
    have hmem : id ∈ Multiset.range (min s.lo.toInt p.total.toInt).toNat := by
      rw [← h.ids]
      exact Multiset.mem_add.mpr (Or.inl hid)
    have hlt := Multiset.mem_range.mp hmem
    omega
  all hfinished := (h.settled hconns hfinished).1
  answered hfinished := (h.settled hconns hfinished).2.1
  counted hfinished := by
    have hcounted := h.counted htotal hconns hfinished
    have hlt := p.total.toInt_lt
    apply Int64.toInt_inj.mp
    rw [Int64.toInt_add, hcounted]
    exact Int.bmod_eq_of_le (by omega) (by omega)
  staged hfinished := (h.settled hconns hfinished).2.2.1
  success _ hout := h.success htotal hconns hout

end Account

/-! ### Every run ends with a line -/

/-- How far a worker is from the end of its loop. -/
def rank (w : Worker σ) : ℕ :=
  match w.pc with
  | .assembling _ => 5
  | .waiting _ => 4
  | .answered _ _ => 3
  | .noting _ => 2
  | .receiving => 1
  | .done => 0

/-- A bound on the steps that are left. -/
def State.left (s : State p) : ℕ :=
  5 * (p.lastEnd - s.lo.toInt).toNat + (∑ w, rank (s.workers w)) +
    ((!s.closed).toNat + s.build.isNone.toNat)

/-- A step of a worker that brings it nearer to its end. -/
theorem left_lt_of_rank_lt {s s' : State p} {w : Fin p.conns} {x : Worker σ}
    (hworkers : s'.workers = Function.update s.workers w x) (hlo : s'.lo = s.lo)
    (hclosed : s'.closed = s.closed) (hbuild : s'.build = s.build)
    (hrank : rank x < rank (s.workers w)) : s'.left < s.left := by
  have hsum := sum_update rank s.workers w x
  rw [State.left, State.left, hworkers, hlo, hclosed, hbuild]
  omega

theorem Inv.left_lt (hfits : p.Fits) (hchunk : 1 ≤ p.chunk.toInt) {s : State p} (h : Inv s)
    {e : Label p.conns} (he : enabled s e) : (effect s e).left < s.left := by
  cases e with
  | send w =>
      obtain ⟨hlt, -, hpc⟩ := he
      obtain ⟨hadd, hnext⟩ := h.toInt_lo_add hfits hchunk hlt
      have hsum := sum_update rank s.workers w
        { s.workers w with pc := .assembling (p.job s.lo) }
      have hold : rank (s.workers w) = 1 := by rw [rank, hpc]
      have hnew : rank { s.workers w with pc := .assembling (p.job s.lo) } = 5 := rfl
      show 5 * (p.lastEnd - (s.lo + p.chunk).toInt).toNat +
        (∑ w', rank (Function.update s.workers w
          { s.workers w with pc := .assembling (p.job s.lo) } w')) +
        ((!s.closed).toNat + s.build.isNone.toNat) < s.left
      rw [State.left, hadd]
      omega
  | close =>
      obtain ⟨-, hopen⟩ := he
      simp [State.left, effect, hopen]
  | post w j =>
      have hpc : (s.workers w).pc = .assembling j := he
      exact left_lt_of_rank_lt rfl rfl rfl rfl (by simp [rank, hpc])
  | answer w q r =>
      have hpc : (s.workers w).pc = .waiting q := he
      exact left_lt_of_rank_lt (w := w) rfl rfl rfl rfl (by simp [rank, hpc])
  | count w q r =>
      have hpc : (s.workers w).pc = .answered q r := he
      rw [effect]
      split
      · exact left_lt_of_rank_lt (w := w) rfl rfl rfl rfl (by simp [rank, hpc])
      · exact left_lt_of_rank_lt (w := w) rfl rfl rfl rfl (by simp [rank, hpc])
  | note w msg =>
      have hpc : (s.workers w).pc = .noting msg := he
      exact left_lt_of_rank_lt (w := w) rfl rfl rfl rfl (by simp [rank, hpc])
  | finish w =>
      obtain ⟨-, hpc⟩ := he
      exact left_lt_of_rank_lt (w := w) rfl rfl rfl rfl (by simp [rank, hpc])
  | build r =>
      obtain ⟨-, -, hbuild⟩ := he
      simp [State.left, effect, hbuild]

/-- No run has more steps than the bound says. -/
theorem length_run_le (htotal : 0 ≤ p.total.toInt) (hchunk : 1 ≤ p.chunk.toInt) (hfits : p.Fits)
    {evs : List (Label p.conns)} {s : State p} (hrun : (system p).Run evs s) :
    evs.length + s.left ≤ (initial p).left := by
  refine Transition.System.Run.history (I := fun evs s => evs.length + s.left ≤ (initial p).left)
    ?_ ?_ hrun
  · rintro s rfl
    simp
  · intro evs s e hrun hle he
    have hlt := (Inv.reachable htotal hchunk hfits hrun.reachable).left_lt hfits hchunk he
    rw [List.length_append, List.length_singleton]
    show evs.length + 1 + (effect s e).left ≤ _
    omega

/-- A run that has printed nothing can go on. -/
theorem Inv.exists_enabled (hconns : 0 < p.conns) {s : State p} (h : Inv s)
    (hout : s.output = none) : ∃ e, enabled s e := by
  by_cases hbusy : ∃ w, (s.workers w).pc ≠ .receiving ∧ (s.workers w).pc ≠ .done
  · obtain ⟨w, hreceiving, hdone⟩ := hbusy
    cases hpc : (s.workers w).pc with
    | receiving => exact absurd hpc hreceiving
    | assembling j => exact ⟨.post w j, hpc⟩
    | waiting q => exact ⟨.answer w q (.response 200 [] []), hpc⟩
    | answered q r => exact ⟨.count w q r, hpc⟩
    | noting msg => exact ⟨.note w msg, hpc⟩
    | done => exact absurd hpc hdone
  have hrest : ∀ w, (s.workers w).pc = .receiving ∨ (s.workers w).pc = .done := by
    intro w
    by_contra hw
    exact hbusy ⟨w, not_or.mp hw⟩
  cases hclosed : s.closed with
  | false =>
      have hpc : (s.workers ⟨0, hconns⟩).pc = .receiving := by
        rcases hrest ⟨0, hconns⟩ with hpc | hpc
        · exact hpc
        · rw [h.done _ hpc] at hclosed
          cases hclosed
      by_cases hlo : s.lo < p.total
      · exact ⟨.send ⟨0, hconns⟩, hlo, hclosed, hpc⟩
      · exact ⟨.close, hlo, hclosed⟩
  | true =>
      by_cases hfinished : s.Finished
      · exact ⟨.build (.response 200 [] []), hclosed, hfinished, h.unbuilt hout⟩
      · obtain ⟨w, hw⟩ := not_forall.mp hfinished
        rcases hrest w with hpc | hpc
        · exact ⟨.finish w, hclosed, hpc⟩
        · exact absurd hpc hw

/-! ### When the last end is no `int` -/

/-- One worker takes the next job and posts it. -/
theorem exists_posted {s : State p} (hs : (system p).Reachable s) {w : Fin p.conns}
    (hopen : s.closed = false) (hpc : (s.workers w).pc = .receiving) (hlo : s.lo < p.total) :
    ∃ s' q, (system p).Reachable s' ∧ s'.closed = false ∧ (s'.workers w).pc = .waiting q ∧
      s'.lo = s.lo + p.chunk ∧ q ∈ s'.posted ∧ q.job = p.job s.lo := by
  obtain ⟨evs, hrun⟩ := hs
  have hsend : (system p).enabled s (.send w) := ⟨hlo, hopen, hpc⟩
  have hrun := hrun.next hsend
  have hpost : (system p).enabled ((system p).effect s (.send w)) (.post w (p.job s.lo)) := by
    simp [system, enabled, effect, State.goto]
  have hrun := hrun.next hpost
  let q : Post := { job := p.job s.lo,
                    body := p.body (p.job s.lo) (((system p).effect s (.send w)).workers w) }
  refine ⟨_, q, hrun.reachable, hopen, ?_, rfl, ?_, rfl⟩
  · simp [system, effect, q]
  · simp [system, effect, q]

/-- A worker may do a whole job while the others wait. -/
theorem exists_round {s : State p} (hs : (system p).Reachable s) {w : Fin p.conns}
    (hopen : s.closed = false) (hpc : (s.workers w).pc = .receiving) (hlo : s.lo < p.total) :
    ∃ s', (system p).Reachable s' ∧ s'.closed = false ∧ (s'.workers w).pc = .receiving ∧
      s'.lo = s.lo + p.chunk := by
  obtain ⟨s₁, q, ⟨evs, hrun⟩, hopen₁, hpc₁, hlo₁, -⟩ := exists_posted hs hopen hpc hlo
  have hanswer : (system p).enabled s₁ (.answer w q (.response 200 [] [])) := hpc₁
  have hrun := hrun.next hanswer
  have hcount : (system p).enabled ((system p).effect s₁ (.answer w q (.response 200 [] [])))
      (.count w q (.response 200 [] [])) := by
    simp [system, enabled, effect, State.goto]
  have hrun := hrun.next hcount
  refine ⟨_, hrun.reachable, hopen₁, ?_, hlo₁⟩
  simp [system, effect, State.goto, Reply.failure]

/-- The producer gets as far as the job that starts at `k * chunk`. -/
theorem exists_lo (hchunk : 1 ≤ p.chunk.toInt) (w : Fin p.conns) (k : ℕ)
    (hk : k * p.chunk.toInt < p.total.toInt) :
    ∃ s, (system p).Reachable s ∧ s.closed = false ∧ (s.workers w).pc = .receiving ∧
      s.lo.toInt = k * p.chunk.toInt := by
  induction k with
  | zero =>
      refine ⟨initial p, (Transition.System.Run.start rfl).reachable, rfl, rfl, ?_⟩
      simp [initial]
  | succ k ih =>
      have hlt := p.total.toInt_lt
      have hstep : ((k + 1 : ℕ) : ℤ) * p.chunk.toInt = k * p.chunk.toInt + p.chunk.toInt := by
        push_cast
        rw [Int.add_mul, Int.one_mul]
      have hnonneg : 0 ≤ (k : ℤ) * p.chunk.toInt := Int.mul_nonneg (by omega) (by omega)
      obtain ⟨s, hs, hopen, hpc, hlo⟩ := ih (by omega)
      have hnext : s.lo < p.total := by
        rw [Int64.lt_iff_toInt_lt, hlo]
        omega
      obtain ⟨s', hs', hopen', hpc', hlo'⟩ := exists_round hs hopen hpc hnext
      refine ⟨s', hs', hopen', hpc', ?_⟩
      rw [hlo', toInt_add_chunk (by omega) hchunk (by omega), hlo, hstep]

/-- If the last end is no `int`, the producer wraps around to it. -/
theorem exists_wrapped (htotal : 0 ≤ p.total.toInt) (hchunk : 1 ≤ p.chunk.toInt) (w : Fin p.conns)
    (hfits : ¬ p.Fits) :
    ∃ s, (system p).Reachable s ∧ s.closed = false ∧ (s.workers w).pc = .receiving ∧
      s.lo.toInt = p.lastEnd - 2 ^ 64 := by
  have hbounds := lastEnd_bounds hchunk
  have htotalLt := p.total.toInt_lt
  have hchunkLt := p.chunk.toInt_lt
  have hend : 2 ^ 63 ≤ p.lastEnd := Int.not_lt.mp hfits
  -- The last start, from which the producer overflows.
  obtain ⟨m, hm⟩ : ∃ m : ℤ, p.lastEnd = m * p.chunk.toInt := ⟨_, rfl⟩
  have hlast : ((m - 1).toNat : ℤ) * p.chunk.toInt = p.lastEnd - p.chunk.toInt := by
    have hpos : 1 ≤ m := by
      by_contra hneg
      have hle : m * p.chunk.toInt ≤ 0 := Int.mul_nonpos_of_nonpos_of_nonneg (by omega) (by omega)
      omega
    rw [Int.toNat_of_nonneg (by omega), Int.sub_mul, Int.one_mul, hm]
  obtain ⟨s, hs, hopen, hpc, hlo⟩ := exists_lo hchunk w (m - 1).toNat (by omega)
  rw [hlast] at hlo
  have hbelow : s.lo < p.total := by
    rw [Int64.lt_iff_toInt_lt]
    omega
  obtain ⟨s', hs', hopen', hpc', hlo'⟩ := exists_round hs hopen hpc hbelow
  refine ⟨s', hs', hopen', hpc', ?_⟩
  have hsum : p.lastEnd - p.chunk.toInt + p.chunk.toInt = p.lastEnd - 2 ^ 64 + (2 ^ 64 : ℕ) := by
    omega
  rw [hlo', Int64.toInt_add, hlo, hsum, Int.add_bmod_right,
    Int.bmod_eq_of_le (by omega) (by omega)]

/-- A job from a negative start has ids. -/
theorem count_job_pos {lo : Int64} (hlo : lo.toInt < 0) (htotal : 0 ≤ p.total.toInt)
    (hchunk : 1 ≤ p.chunk.toInt) : 0 < (p.job lo).count := by
  have hchunkLt := p.chunk.toInt_lt
  have hle := lo.le_toInt
  have hadd : (lo + p.chunk).toInt = lo.toInt + p.chunk.toInt := by
    rw [Int64.toInt_add, Int.bmod_eq_of_le (by omega) (by omega)]
  have hhi : lo.toInt < (p.job lo).hi.toInt := by
    rw [Params.job]
    dsimp only
    split
    · omega
    · omega
  have hstart : (p.job lo).lo.toInt = lo.toInt := rfl
  rw [Job.count]
  omega

/-- If the last end is no `int`, it is an id of a posted body. -/
theorem exists_stray_id (htotal : 0 ≤ p.total.toInt) (hchunk : 1 ≤ p.chunk.toInt)
    (hconns : 0 < p.conns) (hfits : ¬ p.Fits) :
    ∃ s, (system p).Reachable s ∧ ∃ q ∈ s.posted, ∃ id ∈ q.ids, (id : ℤ) = p.lastEnd := by
  obtain ⟨s, hs, hopen, hpc, hlo⟩ := exists_wrapped htotal hchunk ⟨0, hconns⟩ hfits
  have hbounds := lastEnd_bounds hchunk
  have htotalLt := p.total.toInt_lt
  have hchunkLt := p.chunk.toInt_lt
  have hneg : s.lo.toInt < 0 := by omega
  have hbelow : s.lo < p.total := by
    rw [Int64.lt_iff_toInt_lt]
    omega
  obtain ⟨s', q, hs', -, -, -, hq, hjob⟩ := exists_posted hs hopen hpc hbelow
  have hcount : 0 < q.job.count := by
    rw [hjob]
    exact count_job_pos hneg htotal hchunk
  refine ⟨s', hs', q, hq, q.job.pointId 0, ?_, ?_⟩
  · rw [(says_of_posted hs' hq).ids]
    exact List.mem_map_of_mem (List.mem_range.mpr hcount)
  · have hid : (q.job.id 0).toInt = s.lo.toInt := by
      rw [Job.toInt_id hcount, hjob]
      exact Int.add_zero _
    rw [Job.pointId, toNat_toUInt64_of_neg (by omega), hid]
    omega

/-- Every run accounts for all ids if and only if the least multiple of `chunk` that is
not below `total` is an `int`. -/
theorem bulk_accounted_iff (htotal : 0 ≤ p.total) (hchunk : 1 ≤ p.chunk) (hconns : 0 < p.conns) :
    (∀ s, (system p).Reachable s → Accounted s) ↔ p.Fits := by
  rw [Int64.le_iff_toInt_le] at htotal hchunk
  constructor
  · intro haccounted
    by_contra hfits
    obtain ⟨s, hs, q, hq, id, hid, hend⟩ := exists_stray_id htotal hchunk hconns hfits
    have hbelow := (haccounted s hs).below id (List.mem_flatMap.mpr ⟨q, hq, hid⟩)
    have hbounds := lastEnd_bounds hchunk
    omega
  · intro hfits s hs
    exact (Inv.reachable htotal hchunk hfits hs).accounted htotal hconns fun q hq =>
      says_of_posted hs hq

/-- Two connections, one vector and a source with one word of state. -/
def smallParams (total chunk : Int64) : Params UInt64 where
  vecs := [Json.encode ['[', ']']]
  conns := 2
  total := total
  chunk := chunk
  R := Netkv.wordRand
  vecs_ne_nil := by simp
  vecs_arrays vec hvec := ⟨[], by
    rw [List.mem_singleton.mp hvec]
    exact loads_encode_of_reads Json.Reads.nilArr⟩
  intn_lt n rng hn := Nat.mod_lt rng.toNat hn

theorem bulk_accounted_iff_five_points :
    (smallParams 5 2).Fits ∧ ∀ s, (system (smallParams 5 2)).Reachable s → Accounted s := by
  have hfits : (smallParams 5 2).Fits := by
    show (smallParams 5 2).lastEnd < 2 ^ 63
    decide
  exact ⟨hfits, (bulk_accounted_iff (by decide) (by decide) (by decide)).mpr hfits⟩

/-- The largest `total` and the default `chunk`: the last job would end at
9223372036854776000. -/
theorem bulk_stray_id :
    ∃ s, (system (smallParams 9223372036854775807 1000)).Reachable s ∧ ¬ Accounted s := by
  obtain ⟨s, hs, q, hq, id, hid, hend⟩ := exists_stray_id
    (p := smallParams 9223372036854775807 1000) (by decide) (by decide) (by decide)
    (show ¬ (smallParams 9223372036854775807 1000).lastEnd < 2 ^ 63 by decide)
  refine ⟨s, hs, fun haccounted => ?_⟩
  have hbelow := haccounted.below id (List.mem_flatMap.mpr ⟨q, hq, hid⟩)
  rw [hend] at hbelow
  exact absurd hbelow (by decide)

end Bulk

end RostamBench.Netvec
