import RostamBench.Lib.Json
import RostamBench.Lib.Rely
import RostamBench.Netkv.LoadGen
import Mathlib.Data.Finset.Card

/-!
A `kv` run of `netkv` from the preload on: `setup`, `get` and `put` of every engine, and
the workers that share them.

An engine puts a key in the words of its store (`Address`): as it is, in hex for
memcached, or as a record of a namespace and a set for Aerospike. That engine keeps the
records it has made in a `sync.Map` which all the workers read and fill (`keyFor`). The
Redis family writes the preload in batches through a pipeline. The pipelined rostam engine
asks a connection first and the classic client after it, so one `get` may be two requests.

The stores are not part of this repository. `Store.Lawful` is what the benchmark takes for
granted of one: an acknowledged write is there, a failed one may be there, and nothing is
forgotten. Then the whole measurement is over a fixed set of records (`preloaded_run`):
whatever the order of the workers' operations, no `get` finds nothing.
-/

namespace RostamBench.Netkv.Preload

open BigEndian Effects Interleave

/-! ### Addresses -/

/-- What a store is given for a key. -/
inductive Address
  | raw (key : Bytes)
  | hex (key : String)
  | record (ns set : String) (key : Bytes)
  deriving DecidableEq, Repr

/-- `hex.EncodeToString`. -/
def hexEncode (b : Bytes) : String :=
  String.ofList (b.flatMap fun x => [Json.hexDigit (x.toNat / 16), Json.hexDigit (x.toNat % 16)])

def address (key : Bytes) : Engine → Address
  | .rostam | .rostamPipe | .redis | .valkey | .dragonfly | .keydb => .raw key
  | .memcached => .hex (hexEncode key)
  | .aerospike => .record "test" "kv" key

/-! ### Operations -/

/-- What a store answers a `get` with. Not every client makes an error of a missing
key. -/
inductive Reply
  | found (val : Bytes)
  | missing (err : Option String)
  | failed (msg : String)
  deriving DecidableEq, Repr

inductive StoreOp
  /-- `keyCache.Load`. -/
  | load (key : Bytes)
  /-- `keyCache.Store`. -/
  | store (key : Bytes) (a : Address)
  /-- `route(key) != nil`. -/
  | route (key : Bytes)
  | get (a : Address)
  | set (a : Address) (val : Bytes)
  /-- `Exec` of a pipeline of `SET`s. -/
  | exec (cmds : List (Address × Bytes))
  /-- `WAIT 1`. -/
  | wait
  deriving DecidableEq, Repr

/-- The answers; the error of a call is its message, and `none` is nil. -/
abbrev Answer : StoreOp → Type
  | .load _ => Option Address
  | .store _ _ => Unit
  | .route _ => Bool
  | .get _ => Reply
  | .set _ _ => Option String
  | .exec _ => Option String
  | .wait => Except String ℤ

/-! ### The engines -/

/-- The flags an engine is made from. -/
structure Config where
  engine : Engine
  sync : Bool
  waitMs : ℤ

/-- The error of a call of the client, the reply thrown away. -/
def Reply.err : Reply → Option String
  | .found _ => none
  | .missing err => err
  | .failed msg => some msg

def getAt (a : Address) : Prog Answer (Option String) := .op (.get a) fun r => .ret r.err

def setAt (a : Address) (val : Bytes) : Prog Answer (Option String) := .op (.set a val) .ret

/-- `rostamPipeEngine.call` of a `get`; a connection's answer is enough if the status is
`StatusOK` or `StatusNotFound`. -/
def pipeGet (key : Bytes) : Prog Answer (Option String) :=
  .op (.route key) fun routed =>
    if routed then
      .op (.get (.raw key)) fun r =>
        match r with
        | .found _ | .missing _ => .ret none
        | .failed _ => getAt (.raw key)
    else getAt (.raw key)

/-- `rostamPipeEngine.call` of a `put`. -/
def pipePut (key val : Bytes) : Prog Answer (Option String) :=
  .op (.route key) fun routed =>
    if routed then
      .op (.set (.raw key) val) fun err =>
        match err with
        | none => .ret none
        | some _ => setAt (.raw key) val
    else setAt (.raw key) val

/-- `name()`; for the Redis family it is the label that `newRedisNamed` is given. -/
def label : Engine → String
  | .rostam => "rostam"
  | .rostamPipe => "rostam-pipe"
  | .redis => "redis"
  | .valkey => "valkey"
  | .dragonfly => "dragonfly"
  | .keydb => "keydb"
  | .memcached => "memcached"
  | .aerospike => "aerospike"

/-- `redisEngine.put`. -/
def redisPut (cfg : Config) (key val : Bytes) : Prog Answer (Option String) :=
  .op (.set (.raw key) val) fun err =>
    match err with
    | some msg => .ret (some msg)
    | none =>
        if !cfg.sync then .ret none
        else
          .op .wait fun r =>
            match r with
            | .error msg => .ret (some msg)
            | .ok n =>
                if n < 1 then
                  .ret (some (label cfg.engine ++ ": WAIT timed out, 0 replicas acked within " ++
                    toString cfg.waitMs ++ "ms"))
                else .ret none

/-- `aerospikeEngine.keyFor`; `NewKey` takes any byte key. -/
def keyFor (key : Bytes) : Prog Answer Address :=
  .op (.load key) fun cached =>
    match cached with
    | some a => .ret a
    | none =>
        let a := address key .aerospike
        .op (.store key a) fun _ => .ret a

/-- `get` of the engine. -/
def Config.get (cfg : Config) (key : Bytes) : Prog Answer (Option String) :=
  match cfg.engine with
  | .rostam | .redis | .valkey | .dragonfly | .keydb => getAt (.raw key)
  | .rostamPipe => pipeGet key
  | .memcached => getAt (.hex (hexEncode key))
  | .aerospike => (keyFor key).bind getAt

/-- `put` of the engine. -/
def Config.put (cfg : Config) (key val : Bytes) : Prog Answer (Option String) :=
  match cfg.engine with
  | .rostam => setAt (.raw key) val
  | .rostamPipe => pipePut key val
  | .redis | .valkey | .dragonfly | .keydb => redisPut cfg key val
  | .memcached => setAt (.hex (hexEncode key)) val
  | .aerospike => (keyFor key).bind fun a => setAt a val

/-! ### The preload -/

/-- `if err != nil { return err }`. -/
def orReturn (p : Prog Answer (Option String)) : Prog Answer (Except String Unit) :=
  p.bind fun err =>
    match err with
    | none => .ret (.ok ())
    | some msg => .ret (.error msg)

/-- One write after the other. -/
def putAll (put : Bytes → Prog Answer (Option String)) (keys : List Bytes) :
    Prog Answer (Except String Unit) :=
  Prog.forEach (fun _ key => orReturn (put key)) keys ()

/-- `pipe.Exec`, which empties the pipeline; an empty one sends nothing. -/
def pipeExec (cmds : List (Address × Bytes)) : Prog Answer (Except String Unit) :=
  if cmds = [] then .ret (.ok ()) else orReturn (.op (.exec cmds) .ret)

/-- A round of `redisEngine.setup`, with `i` and the commands queued so far. -/
def redisRound (val : Bytes) (b : ℕ × List (Address × Bytes)) (key : Bytes) :
    Prog Answer (Except String (ℕ × List (Address × Bytes))) :=
  let cmds := b.2 ++ [(.raw key, val)]
  if b.1 % 1000 = 999 then (pipeExec cmds).andThen fun _ => .ret (.ok (b.1 + 1, []))
  else .ret (.ok (b.1 + 1, cmds))

/-- `redisEngine.setup`. -/
def redisSetup (keys : List Bytes) (val : Bytes) : Prog Answer (Except String Unit) :=
  (Prog.forEach (redisRound val) keys (0, [])).andThen fun b => pipeExec b.2

/-- `setup` of the engine; the pipelined one preloads through its classic client. -/
def Config.setup (cfg : Config) (keys : List Bytes) (val : Bytes) :
    Prog Answer (Except String Unit) :=
  match cfg.engine with
  | .rostam | .rostamPipe => putAll (fun key => setAt (.raw key) val) keys
  | .redis | .valkey | .dragonfly | .keydb => redisSetup keys val
  | .memcached => putAll (fun key => setAt (.hex (hexEncode key)) val) keys
  | .aerospike => putAll (fun key => (keyFor key).bind fun a => setAt a val) keys

/-! ### The workers -/

/-- What the `op` of a `kv` run calls. -/
inductive Call
  | get (key : Bytes)
  | put (key val : Bytes)
  deriving DecidableEq, Repr

def Call.request : Call → Request
  | .get key => .get key
  | .put key val => .put key val

def ofRequest : Request → Option Call
  | .get key => some (.get key)
  | .put key val => some (.put key val)
  | .atomicUpdate _ _ _ | .incr _ _ | .casIncr _ | .append _ _ | .shift _ => none

def Config.call (cfg : Config) : Call → Prog Answer (Option String)
  | .get key => cfg.get key
  | .put key val => cfg.put key val

/-- The calls of a worker, with the error of each. -/
def Config.issue (cfg : Config) : List Call → List (Option String) →
    Prog Answer (List (Option String))
  | [], errs => .ret errs
  | c :: cs, errs => (cfg.call c).bind fun err => cfg.issue cs (errs ++ [err])

/-! ### Stores -/

/-- A store, with `ε` for what decides how an operation goes. -/
structure Store (σ ε : Type*) where
  content : σ → Address → Option Bytes
  route : ε → Bytes → σ → Bool
  get : ε → Address → σ → Reply
  set : ε → Address → Bytes → σ → σ × Option String
  exec : ε → List (Address × Bytes) → σ → σ × Option String
  wait : ε → σ → σ × Except String ℤ

/-- The contents after a write of one of `vals` to `a`, or without it. -/
def MayHave (before after : Option Bytes) (vals : List Bytes) : Prop :=
  after = before ∨ ∃ v ∈ vals, after = some v

/-- The values a batch writes to an address. -/
def written (cmds : List (Address × Bytes)) (a : Address) : List Bytes :=
  (cmds.filter fun c => c.1 = a).map Prod.snd

variable {σ ε : Type*}

/-- What is taken for granted of a store. -/
structure Store.Lawful (st : Store σ ε) : Prop where
  get_found : ∀ {e a s v}, st.get e a s = .found v → st.content s a = some v
  get_missing : ∀ {e a s err}, st.get e a s = .missing err → st.content s a = none
  set_acked : ∀ {e a v s}, (st.set e a v s).2 = none →
    st.content (st.set e a v s).1 a = some v
  set_changes : ∀ e a v s a', MayHave (st.content s a') (st.content (st.set e a v s).1 a')
    (written [(a, v)] a')
  exec_acked : ∀ {e cmds s a}, (st.exec e cmds s).2 = none → written cmds a ≠ [] →
    ∃ v ∈ written cmds a, st.content (st.exec e cmds s).1 a = some v
  exec_changes : ∀ e cmds s a, MayHave (st.content s a) (st.content (st.exec e cmds s).1 a)
    (written cmds a)
  wait_keeps : ∀ e s a, st.content (st.wait e s).1 a = st.content s a

/-- The store, and the `keyCache` beside it. -/
structure Shared (σ : Type*) where
  store : σ
  keyCache : Bytes → Option Address

def Store.act (st : Store σ ε) (e : ε) : Act (Shared σ) Answer
  | .load key, s => (s, s.keyCache key)
  | .store key a, s => ({ s with keyCache := Function.update s.keyCache key (some a) }, ())
  | .route key, s => (s, st.route e key s.store)
  | .get a, s => (s, st.get e a s.store)
  | .set a v, s => ({ s with store := (st.set e a v s.store).1 }, (st.set e a v s.store).2)
  | .exec cmds, s =>
      ({ s with store := (st.exec e cmds s.store).1 }, (st.exec e cmds s.store).2)
  | .wait, s => ({ s with store := (st.wait e s.store).1 }, (st.wait e s.store).2)

/-- The states a preload from `s₀` that returned nil may leave behind. -/
def afterSetup (st : Store σ ε) (cfg : Config) (keys : List Bytes) (val : Bytes)
    (s₀ s : Shared σ) : Prop :=
  ∃ t, (system st.act (fun s => s = s₀) fun _ : Unit => cfg.setup keys val).Reachable t ∧
    t.prog () = .ret (.ok ()) ∧ t.shared = s

/-! ### How many records there are -/

theorem hexDigit_inj {m n : ℕ} (hm : m < 16) (hn : n < 16)
    (h : Json.hexDigit m = Json.hexDigit n) : m = n := by
  have hval := Json.hexVal_hexDigit m hm
  rw [h, Json.hexVal_hexDigit n hn] at hval
  exact (Option.some.inj hval).symm

theorem hexEncode_injective : Function.Injective hexEncode := by
  intro b b' h
  have hchars := String.ofList_injective h
  clear h
  induction b generalizing b' with
  | nil =>
      cases b' with
      | nil => rfl
      | cons y b' => simp at hchars
  | cons x b ih =>
      cases b' with
      | nil => simp at hchars
      | cons y b' =>
          simp only [List.flatMap_cons, List.cons_append, List.nil_append, List.cons.injEq] at hchars
          obtain ⟨hhigh, hlow, htail⟩ := hchars
          have hx := x.toNat_lt
          have hy := y.toNat_lt
          have hdiv := hexDigit_inj (by omega) (by omega) hhigh
          have hmod := hexDigit_inj (by omega) (by omega) hlow
          have hxy : x = y := UInt8.toNat_inj.mp (by omega)
          rw [hxy, ih htail]

theorem address_injective (eng : Engine) : Function.Injective fun key => address key eng := by
  intro key key' h
  cases eng with
  | rostam | rostamPipe | redis | valkey | dragonfly | keydb => exact Address.raw.inj h
  | memcached => exact hexEncode_injective (Address.hex.inj h)
  | aerospike => exact (Address.record.inj h).2.2

/-- A key has room for 32 bits of the index. -/
theorem keyOf_eq_iff {i j : ℕ} : keyOf i = keyOf j ↔ i % 2 ^ 32 = j % 2 ^ 32 := by
  have hbyte (m n : ℕ) : UInt8.ofNat m = UInt8.ofNat n ↔ m % 256 = n % 256 := by
    rw [← UInt8.toNat_inj, UInt8.toNat_ofNat', UInt8.toNat_ofNat']
  simp only [keyOf, List.append_cancel_right_eq, List.append_cancel_left_eq, List.cons.injEq,
    hbyte, Nat.shiftRight_eq_div_pow, and_true]
  omega

/-- The addresses a run of `n` keys uses. -/
def addresses (eng : Engine) (n : ℕ) : List Address := (mkKeys n).map fun key => address key eng

/-- There are as many as there are keys, up to `2 ^ 32` of them. -/
theorem card_addresses (eng : Engine) (n : ℕ) :
    (addresses eng n).toFinset.card = min n (2 ^ 32) := by
  have himage : (addresses eng n).toFinset =
      (Finset.range (min n (2 ^ 32))).image fun i => address (keyOf i) eng := by
    ext a
    simp only [addresses, mkKeys, List.map_map, List.mem_toFinset, List.mem_map, List.mem_range,
      Function.comp_apply, Finset.mem_image, Finset.mem_range, lt_min_iff]
    constructor
    · rintro ⟨i, hi, rfl⟩
      have hmod : i % 2 ^ 32 ≤ i := Nat.mod_le _ _
      refine ⟨i % 2 ^ 32, ⟨by omega, Nat.mod_lt _ (by decide)⟩, ?_⟩
      rw [keyOf_eq_iff.mpr (Nat.mod_mod i (2 ^ 32))]
    · rintro ⟨i, hi, rfl⟩
      exact ⟨i, hi.1, rfl⟩
  rw [himage, Finset.card_image_of_injOn, Finset.card_range]
  intro i hi j hj h
  simp only [Finset.coe_range, Set.mem_Iio, lt_min_iff] at hi hj
  have hmod := keyOf_eq_iff.mp (address_injective eng h)
  rwa [Nat.mod_eq_of_lt hi.2, Nat.mod_eq_of_lt hj.2] at hmod

/-! ### What the preload leaves -/

/-- `val` at the addresses `addrs`, everything else as in `base`, and only right records
in the cache. -/
structure Loaded (st : Store σ ε) (base : Address → Option Bytes) (val : Bytes)
    (addrs : List Address) (s : Shared σ) : Prop where
  content : ∀ a, st.content s.store a = if a ∈ addrs then some val else base a
  cached : ∀ key a, s.keyCache key = some a → a = address key .aerospike

variable {st : Store σ ε} {base : Address → Option Bytes} {val : Bytes} {addrs : List Address}
  {s : Shared σ}

@[simp] theorem mem_written {cmds : List (Address × Bytes)} {a : Address} {v : Bytes} :
    v ∈ written cmds a ↔ (a, v) ∈ cmds := by
  simp [written]

/-- An acknowledged batch adds its addresses. -/
theorem Loaded.write (h : Loaded st base val addrs s) (cmds : List (Address × Bytes)) {s' : σ}
    (hcmds : ∀ c ∈ cmds, c.2 = val)
    (hacked : ∀ {a}, written cmds a ≠ [] → ∃ v ∈ written cmds a, st.content s' a = some v)
    (hchanges : ∀ a, MayHave (st.content s.store a) (st.content s' a) (written cmds a)) :
    Loaded st base val (addrs ++ cmds.map Prod.fst) { s with store := s' } where
  content := by
    intro a
    by_cases ha : written cmds a = []
    · have hnot : a ∉ cmds.map Prod.fst := by
        intro hmem
        obtain ⟨⟨a', v⟩, hc, rfl⟩ := List.mem_map.mp hmem
        have hv : v ∈ written cmds a' := mem_written.mpr hc
        rw [ha] at hv
        cases hv
      have hsame : st.content s' a = st.content s.store a := by
        rcases hchanges a with hsame | ⟨v, hv, -⟩
        · exact hsame
        · rw [ha] at hv
          cases hv
      simp [hsame, h.content a, hnot]
    · obtain ⟨v, hv, hsome⟩ := hacked ha
      have hmem : (a, v) ∈ cmds := mem_written.mp hv
      obtain rfl : v = val := hcmds _ hmem
      rw [hsome, if_pos]
      exact List.mem_append_right _ (List.mem_map.mpr ⟨_, hmem, rfl⟩)
  cached := h.cached

theorem orReturn_meets {p : Prog Answer (Option String)} {Q : Shared σ → Prop}
    (h : p.Meets st.act (fun s err => err = none → Q s) s) :
    (orReturn p).Meets st.act (Either (fun s _ => Q s) fun _ _ => True) s := by
  apply h.bind
  intro s err hQ
  cases err with
  | none => exact hQ rfl
  | some msg => trivial

theorem setAt_meets (hst : st.Lawful) (h : Loaded st base val addrs s) (a : Address) :
    (setAt a val).Meets st.act (fun s err => err = none → Loaded st base val (addrs ++ [a]) s)
      s := by
  intro e herr
  refine h.write [(a, val)] (by simp) ?_ (hst.set_changes e a val s.store)
  intro a' ha'
  obtain rfl : a' = a := by
    by_contra hne
    exact ha' (by simp [written, Ne.symm hne])
  exact ⟨val, by simp, hst.set_acked herr⟩

/-- The address is right whether it was in the cache or not, and stays so for the next. -/
theorem keyFor_meets (h : Loaded st base val addrs s) (key : Bytes) :
    (keyFor key).Meets st.act
      (fun s a => Loaded st base val addrs s ∧ a = address key .aerospike) s := by
  rw [keyFor, Prog.Meets]
  intro e
  simp only [Store.act]
  cases hcached : s.keyCache key with
  | some a => exact ⟨h, h.cached key a hcached⟩
  | none =>
      refine fun e => ⟨⟨h.content, ?_⟩, rfl⟩
      intro key' a ha
      by_cases hkey : key' = key
      · subst hkey
        simpa [Store.act, eq_comm] using ha
      · exact h.cached key' a (by simpa [Store.act, hkey] using ha)

theorem putAll_meets {put : Bytes → Prog Answer (Option String)} {addr : Bytes → Address}
    (hput : ∀ addrs key s, Loaded st base val addrs s → (put key).Meets st.act
      (fun s err => err = none → Loaded st base val (addrs ++ [addr key]) s) s)
    (h : Loaded st base val [] s) (keys : List Bytes) :
    (putAll put keys).Meets st.act
      (Either (fun s _ => Loaded st base val (keys.map addr) s) fun _ _ => True) s := by
  refine Prog.Meets.forEach (I := fun done s _ => Loaded st base val (done.map addr) s) ?_ h
  intro done key s _ hs
  rw [List.map_append]
  exact orReturn_meets (hput _ key s hs)

/-- The `SET`s of some keys. -/
def sets (val : Bytes) (keys : List Bytes) : List (Address × Bytes) :=
  keys.map fun key => (.raw key, val)

theorem pipeExec_meets (hst : st.Lawful) {flushed : List Bytes}
    (h : Loaded st base val (flushed.map .raw) s) (queued : List Bytes) :
    (pipeExec (sets val queued)).Meets st.act
      (Either (fun s _ => Loaded st base val ((flushed ++ queued).map .raw) s)
        fun _ _ => True) s := by
  rw [pipeExec]
  split
  · rename_i hnil
    obtain rfl := List.map_eq_nil_iff.mp hnil
    rw [List.append_nil]
    exact h
  · apply orReturn_meets
    intro e herr
    have hwritten := h.write (sets val queued) (by simp [sets]) (hst.exec_acked herr)
      (hst.exec_changes e _ s.store)
    have haddrs : (sets val queued).map Prod.fst = queued.map .raw := by
      rw [sets, List.map_map]
      rfl
    rwa [haddrs, ← List.map_append] at hwritten

/-- Every key so far is flushed or still queued in the pipeline. -/
def Batched (st : Store σ ε) (base : Address → Option Bytes) (val : Bytes) (done : List Bytes)
    (s : Shared σ) (b : ℕ × List (Address × Bytes)) : Prop :=
  ∃ flushed queued, done = flushed ++ queued ∧ b.2 = sets val queued ∧
    Loaded st base val (flushed.map .raw) s

theorem redisRound_meets (hst : st.Lawful) {done : List Bytes} {b : ℕ × List (Address × Bytes)}
    (h : Batched st base val done s b) (key : Bytes) :
    (redisRound val b key).Meets st.act
      (Either (Batched st base val (done ++ [key])) fun _ _ => True) s := by
  obtain ⟨flushed, queued, rfl, hcmds, hs⟩ := h
  have hqueue : b.2 ++ [(.raw key, val)] = sets val (queued ++ [key]) := by
    simp [hcmds, sets]
  rw [redisRound]
  simp only [hqueue]
  split
  · apply (pipeExec_meets hst hs (queued ++ [key])).andThen
    intro s _ hs
    exact ⟨flushed ++ (queued ++ [key]), [], by simp, rfl, hs⟩
  · exact ⟨flushed, queued ++ [key], by simp, rfl, hs⟩

theorem redisSetup_meets (hst : st.Lawful) (h : Loaded st base val [] s) (keys : List Bytes) :
    (redisSetup keys val).Meets st.act
      (Either (fun s _ => Loaded st base val (keys.map .raw) s) fun _ _ => True) s := by
  have hloop : (Prog.forEach (redisRound val) keys (0, [])).Meets st.act
      (Either (Batched st base val keys) fun _ _ => True) s := by
    refine Prog.Meets.forEach ?_ ⟨[], [], rfl, rfl, h⟩
    intro done key s b hb
    exact redisRound_meets hst hb key
  apply hloop.andThen
  rintro s ⟨i, cmds⟩ ⟨flushed, queued, rfl, hcmds, hs⟩
  rw [show cmds = sets val queued from hcmds]
  exact pipeExec_meets hst hs queued

/-- A preload that returns nil has stored every key. -/
theorem setup_meets (hst : st.Lawful) (cfg : Config) (h : Loaded st base val [] s)
    (keys : List Bytes) :
    (cfg.setup keys val).Meets st.act
      (Either (fun s _ => Loaded st base val (keys.map fun key => address key cfg.engine) s)
        fun _ _ => True) s := by
  rw [Config.setup]
  cases cfg.engine with
  | rostam | rostamPipe | memcached =>
      exact putAll_meets (fun _ _ _ hs => setAt_meets hst hs _) h keys
  | redis | valkey | dragonfly | keydb => exact redisSetup_meets hst h keys
  | aerospike =>
      refine putAll_meets ?_ h keys
      intro addrs key s hs
      apply (keyFor_meets hs key).bind
      rintro s a ⟨hs, rfl⟩
      exact setAt_meets hst hs _

/-! ### What the workers ask for -/

/-- A `get` or a `put` of `val`, of one of the keys. -/
def Within (keys : List Bytes) (val : Bytes) : Call → Prop
  | .get key => key ∈ keys
  | .put key v => key ∈ keys ∧ v = val

variable {τ : Type*} {R : Rand τ} {eng : Engine} {readPct : ℤ} {op : Op τ} {keys : List Bytes}

theorem kv_request (hop : eng.op R readPct val .kv = some op) {key : Bytes} (hkey : key ∈ keys)
    (rng : τ) : ∃ c, Within keys val c ∧ (op rng key).1 = c.request := by
  obtain rfl := Option.some.inj hop
  by_cases hn : (R.intn 100 rng).1 < readPct
  · exact ⟨.get key, hkey, by simp [hn, Call.request]⟩
  · exact ⟨.put key val, ⟨hkey, rfl⟩, by simp [hn, Call.request]⟩

theorem keyAt_mem {idx : Option ℤ} {key : Bytes} (h : keyAt keys idx = some key) :
    key ∈ keys := by
  cases idx with
  | none => cases h
  | some i =>
      rw [keyAt] at h
      split at h
      · exact List.mem_of_getElem? h
      · cases h

theorem plan_kv (hop : eng.op R readPct val .kv = some op) (keys : List Bytes) (zipf : Bool)
    (n : ℕ) (rng : τ) : ∃ cs : List Call, (∀ c ∈ cs, Within keys val c) ∧
      plan R keys zipf op n rng = cs.map Call.request := by
  induction n generalizing rng with
  | zero => exact ⟨[], by simp, rfl⟩
  | succ n ih =>
      rw [plan]
      cases hkey : keyAt keys (pick R zipf keys.length rng).1 with
      | none => exact ⟨[], by simp, by simp [hkey]⟩
      | some key =>
          obtain ⟨c, hc, hreq⟩ := kv_request hop (keyAt_mem hkey) (pick R zipf keys.length rng).2
          obtain ⟨cs, hcs, hplan⟩ := ih (op (pick R zipf keys.length rng).2 key).2
          refine ⟨c :: cs, by simpa using ⟨hc, hcs⟩, ?_⟩
          simp only [hkey]
          rw [hreq, hplan, List.map_cons]

/-- The calls of worker `w` of a run. -/
def kvCalls (R : Rand τ) (keys : List Bytes) (zipf : Bool) (op : Op τ) (win : Window) (w : ℕ)
    (readings : List Reading) : List Call :=
  (worker R keys zipf op win w readings).requests.filterMap ofRequest

/-- In a `kv` run these are all its requests. -/
theorem kvCalls_spec (hop : eng.op R readPct val .kv = some op) (keys : List Bytes) (zipf : Bool)
    (win : Window) (w : ℕ) (readings : List Reading) :
    (kvCalls R keys zipf op win w readings).map Call.request =
        (worker R keys zipf op win w readings).requests ∧
      ∀ c ∈ kvCalls R keys zipf op win w readings, Within keys val c := by
  obtain ⟨cs, hcs, hplan⟩ := plan_kv hop keys zipf readings.length (workerSource R w)
  have hprefix := worker_requests R keys zipf op win w readings
  rw [hplan] at hprefix
  obtain ⟨issued, hissued, hrequests⟩ := List.prefix_map_iff.mp hprefix
  have hcalls : kvCalls R keys zipf op win w readings = issued := by
    have hsome : ofRequest ∘ Call.request = some := by
      funext c
      cases c <;> rfl
    rw [kvCalls, hrequests, List.filterMap_map, hsome, List.filterMap_some]
  rw [hcalls, hrequests]
  exact ⟨rfl, fun c hc => hcs c (hissued.subset hc)⟩

/-! ### What they get -/

/-- The operations of a worker. -/
def Allowed (addrs : List Address) (val : Bytes) : StoreOp → Prop
  | .load _ | .route _ | .wait => True
  | .store key a => a = address key .aerospike
  | .get a => a ∈ addrs
  | .set a v => a ∈ addrs ∧ v = val
  | .exec _ => False

/-- The answers it gets. -/
def Expected (val : Bytes) : (o : StoreOp) → Answer o → Prop
  | .load key, cached => ∀ a, cached = some a → a = address key .aerospike
  | .get _, r => r = .found val ∨ ∃ msg, r = .failed msg
  | .store _ _, _ | .route _, _ | .set _ _, _ | .exec _, _ | .wait, _ => True

/-- An operation without an error. -/
def Clean : Event Answer → Prop
  | ⟨.get _, r⟩ => ∀ msg, r ≠ .failed msg
  | ⟨.set _ _, err⟩ => err = none
  | ⟨.wait, r⟩ => ∃ n, 1 ≤ n ∧ r = .ok n
  | ⟨.load _, _⟩ | ⟨.store _ _, _⟩ | ⟨.route _, _⟩ | ⟨.exec _, _⟩ => True

/-- The set of records stays what it is under the operations of the workers. -/
theorem Loaded.keep (hst : st.Lawful) (h : Loaded st base val addrs s) (e : ε) {o : StoreOp}
    (ho : Allowed addrs val o) :
    Loaded st base val addrs (st.act e o s).1 ∧ Expected val o (st.act e o s).2 := by
  cases o with
  | load key => exact ⟨h, fun a ha => h.cached key a ha⟩
  | store key a =>
      refine ⟨⟨h.content, ?_⟩, trivial⟩
      intro key' a' ha'
      by_cases hkey : key' = key
      · subst hkey
        obtain rfl : a = a' := by simpa [Store.act] using ha'
        exact ho
      · exact h.cached key' a' (by simpa [Store.act, hkey] using ha')
  | route key => exact ⟨h, trivial⟩
  | get a =>
      refine ⟨h, ?_⟩
      have hcontent : st.content s.store a = some val := (h.content a).trans (if_pos ho)
      change st.get e a s.store = .found val ∨ ∃ msg, st.get e a s.store = .failed msg
      cases hr : st.get e a s.store with
      | found v =>
          have hv := hst.get_found hr
          rw [hcontent] at hv
          exact Or.inl (by rw [Option.some.inj hv])
      | missing err =>
          have hnone := hst.get_missing hr
          rw [hcontent] at hnone
          cases hnone
      | failed msg => exact Or.inr ⟨msg, rfl⟩
  | set a v =>
      obtain ⟨ha, rfl⟩ := ho
      refine ⟨⟨?_, h.cached⟩, trivial⟩
      intro a'
      rcases hst.set_changes e a v s.store a' with hsame | ⟨v', hv', hsome⟩
      · exact hsame.trans (h.content a')
      · obtain ⟨rfl, rfl⟩ : a' = a ∧ v' = v := by simpa using hv'
        rw [if_pos ha]
        exact hsome
  | exec cmds => exact absurd ho id
  | wait =>
      refine ⟨⟨?_, h.cached⟩, trivial⟩
      intro a
      exact (hst.wait_keeps e s.store a).trans (h.content a)

/-- Only an operation with an error makes an error. -/
def NilIfClean (tr : List (Event Answer)) (err : Option String) : Prop :=
  (∀ ev ∈ tr, Clean ev) → err = none

variable {past : List (Event Answer)} {a : Address} {key : Bytes} {cfg : Config}

/-- The last operation was clean. -/
theorem clean_last {ev : Event Answer} (h : ∀ ev' ∈ past ++ [ev], Clean ev') : Clean ev :=
  h ev (List.mem_append_right _ (List.mem_singleton.mpr rfl))

theorem getAt_under (ha : a ∈ addrs) :
    (getAt a).Under (Expected val) (Allowed addrs val) NilIfClean past := by
  refine ⟨ha, ?_⟩
  intro r hr hclean
  rcases hr with rfl | ⟨msg, rfl⟩
  · rfl
  · exact absurd rfl (clean_last hclean msg)

theorem setAt_under (ha : a ∈ addrs) :
    (setAt a val).Under (Expected val) (Allowed addrs val) NilIfClean past := by
  refine ⟨⟨ha, rfl⟩, ?_⟩
  intro err _ hclean
  exact clean_last hclean

theorem pipeGet_under (ha : .raw key ∈ addrs) :
    (pipeGet key).Under (Expected val) (Allowed addrs val) NilIfClean past := by
  refine ⟨trivial, ?_⟩
  intro routed _
  cases routed with
  | false => exact getAt_under ha
  | true =>
      refine ⟨ha, ?_⟩
      intro r _
      cases r with
      | found v => exact fun _ => rfl
      | missing err => exact fun _ => rfl
      | failed msg => exact getAt_under ha

theorem pipePut_under (ha : .raw key ∈ addrs) :
    (pipePut key val).Under (Expected val) (Allowed addrs val) NilIfClean past := by
  refine ⟨trivial, ?_⟩
  intro routed _
  cases routed with
  | false => exact setAt_under ha
  | true =>
      refine ⟨⟨ha, rfl⟩, ?_⟩
      intro err _
      cases err with
      | none => exact fun _ => rfl
      | some msg => exact setAt_under ha

theorem redisPut_under (ha : .raw key ∈ addrs) :
    (redisPut cfg key val).Under (Expected val) (Allowed addrs val) NilIfClean past := by
  refine ⟨⟨ha, rfl⟩, ?_⟩
  intro err _
  cases err with
  | some msg => exact fun hclean => absurd (clean_last hclean) (by simp [Clean])
  | none =>
      cases hsync : cfg.sync with
      | false => simp [Prog.Under, NilIfClean]
      | true =>
          simp only [Bool.not_true, Bool.false_eq_true, if_false]
          refine ⟨trivial, ?_⟩
          intro r _
          cases r with
          | error msg => exact fun hclean => absurd (clean_last hclean) (by simp [Clean])
          | ok n =>
              simp only
              split
              · intro hclean
                obtain ⟨m, hm, heq⟩ := clean_last hclean
                obtain rfl := Except.ok.inj heq
                omega
              · exact fun _ => rfl

/-- Whoever has filled the cache, the address is that of the key. -/
theorem keyFor_under {f : Address → Prog Answer (Option String)}
    (hf : ∀ past, (f (address key .aerospike)).Under (Expected val) (Allowed addrs val)
      NilIfClean past) :
    ((keyFor key).bind f).Under (Expected val) (Allowed addrs val) NilIfClean past := by
  refine ⟨trivial, ?_⟩
  intro cached hcached
  cases cached with
  | some a =>
      obtain rfl := hcached a rfl
      exact hf _
  | none => exact ⟨rfl, fun _ _ => hf _⟩

theorem call_under {c : Call} (hc : Within keys val c)
    (haddrs : addrs = keys.map fun key => address key cfg.engine) :
    (cfg.call c).Under (Expected val) (Allowed addrs val) NilIfClean past := by
  have hmem {key : Bytes} (hkey : key ∈ keys) : address key cfg.engine ∈ addrs := by
    rw [haddrs]
    exact List.mem_map_of_mem hkey
  cases c with
  | get key =>
      have ha := hmem hc
      rw [Config.call, Config.get]
      cases heng : cfg.engine with
      | rostam | redis | valkey | dragonfly | keydb | memcached =>
          rw [heng] at ha
          exact getAt_under ha
      | rostamPipe =>
          rw [heng] at ha
          exact pipeGet_under ha
      | aerospike =>
          rw [heng] at ha
          exact keyFor_under fun _ => getAt_under ha
  | put key v =>
      obtain ⟨hkey, rfl⟩ := hc
      have ha := hmem hkey
      rw [Config.call, Config.put]
      cases heng : cfg.engine with
      | rostam | memcached =>
          rw [heng] at ha
          exact setAt_under ha
      | rostamPipe =>
          rw [heng] at ha
          exact pipePut_under ha
      | redis | valkey | dragonfly | keydb =>
          rw [heng] at ha
          exact redisPut_under ha
      | aerospike =>
          rw [heng] at ha
          exact keyFor_under fun _ => setAt_under ha

/-- The errors of a worker without a failed operation are all nil. -/
def NilsIfClean (tr : List (Event Answer)) (errs : List (Option String)) : Prop :=
  (∀ ev ∈ tr, Clean ev) → ∀ err ∈ errs, err = none

theorem issue_under {cs : List Call} (hcs : ∀ c ∈ cs, Within keys val c)
    (haddrs : addrs = keys.map fun key => address key cfg.engine)
    {errs : List (Option String)} (herrs : NilsIfClean past errs) :
    (cfg.issue cs errs).Under (Expected val) (Allowed addrs val) NilsIfClean past := by
  induction cs generalizing past errs with
  | nil => exact herrs
  | cons c cs ih =>
      obtain ⟨hc, hcs⟩ := List.forall_mem_cons.mp hcs
      apply (call_under hc haddrs).bind
      intro tr err hpast herr
      refine ih hcs ?_
      intro hclean err' herr'
      rcases List.mem_append.mp herr' with hmem | hmem
      · exact herrs (fun ev hev => hclean ev (hpast.subset hev)) err' hmem
      · rw [List.mem_singleton.mp hmem]
        exact herr hclean

/-! ### A store in memory -/

def putCmd (m : Address → Option Bytes) (c : Address × Bytes) : Address → Option Bytes :=
  Function.update m c.1 (some c.2)

/-- A map; an operation goes through or times out. -/
def memory : Store (Address → Option Bytes) Bool where
  content m := m
  route ok _ _ := ok
  get ok a m :=
    if ok then
      match m a with
      | some v => .found v
      | none => .missing (some "not found")
    else .failed "timeout"
  set ok a v m := if ok then (putCmd m (a, v), none) else (m, some "timeout")
  exec ok cmds m := if ok then (cmds.foldl putCmd m, none) else (m, some "timeout")
  wait ok m := (m, .ok (if ok then 1 else 0))

theorem foldl_putCmd (cmds : List (Address × Bytes)) (m : Address → Option Bytes) (a : Address) :
    (written cmds a = [] ∧ cmds.foldl putCmd m a = m a) ∨
      ∃ v ∈ written cmds a, cmds.foldl putCmd m a = some v := by
  induction cmds generalizing m with
  | nil => exact Or.inl ⟨rfl, rfl⟩
  | cons c cmds ih =>
      rcases ih (putCmd m c) with ⟨hnil, hsame⟩ | ⟨v, hv, hsome⟩
      · rw [List.foldl_cons, hsame]
        by_cases hc : c.1 = a
        · subst hc
          exact Or.inr ⟨c.2, by simp, by simp [putCmd]⟩
        · refine Or.inl ⟨?_, Function.update_of_ne (Ne.symm hc) _ _⟩
          simpa [written, hc] using hnil
      · exact Or.inr ⟨v, by simpa using Or.inr (mem_written.mp hv), hsome⟩

theorem memory_lawful : memory.Lawful where
  get_found := by
    intro ok a m v h
    cases ok with
    | false => simp [memory] at h
    | true =>
        change m a = some v
        cases hm : m a with
        | none => simp [memory, hm] at h
        | some v' => simpa [memory, hm] using h
  get_missing := by
    intro ok a m err h
    cases ok with
    | false => simp [memory] at h
    | true =>
        change m a = none
        cases hm : m a with
        | none => rfl
        | some v' => simp [memory, hm] at h
  set_acked := by
    intro ok a v m h
    cases ok with
    | false => simp [memory] at h
    | true => simp [memory, putCmd]
  set_changes := by
    intro ok a v m a'
    cases ok with
    | false => exact Or.inl rfl
    | true => exact (foldl_putCmd [(a, v)] m a').imp And.right id
  exec_acked := by
    intro ok cmds m a h hne
    cases ok with
    | false => simp [memory] at h
    | true => exact (foldl_putCmd cmds m a).resolve_left fun hnil => hne hnil.1
  exec_changes := by
    intro ok cmds m a
    cases ok with
    | false => exact Or.inl rfl
    | true => exact (foldl_putCmd cmds m a).imp And.right id
  wait_keeps := by
    intro ok m a
    rfl

/-! ### A whole run -/

/-- The workers of a `kv` run after a preload from `s₀`. -/
def kvRun (st : Store σ ε) (cfg : Config) (R : Rand τ) (nKeys valSize conns : ℕ) (zipf : Bool)
    (op : Op τ) (win : Window) (readings : Fin conns → List Reading) (s₀ : Shared σ) :
    Transition.System (State (Shared σ) (Fin conns) Answer (List (Option String)))
      (Fin conns × ε) :=
  system st.act (afterSetup st cfg (mkKeys nKeys) (mkVal valSize) s₀) fun w =>
    cfg.issue (kvCalls R (mkKeys nKeys) zipf op win w (readings w)) []

instance (st : Store σ ε) (cfg : Config) (R : Rand τ) (nKeys valSize conns : ℕ) (zipf : Bool)
    (op : Op τ) (win : Window) (readings : Fin conns → List Reading) (s₀ : Shared σ)
    (t : State (Shared σ) (Fin conns) Answer (List (Option String))) (l : Fin conns × ε) :
    Decidable ((kvRun st cfg R nKeys valSize conns zipf op win readings s₀).enabled t l) :=
  inferInstanceAs (Decidable ((system _ _ _).enabled t l))

/-- In every interleaving of the workers' operations after a preload that returned nil the
store holds the value under each of the `nKeys` keys (`2 ^ 32` at most) and otherwise what it
held before, every `get` of a worker is answered with that value or fails, and an error of a
worker comes from an operation that failed. -/
theorem preloaded_run (hst : st.Lawful) (cfg : Config) (nKeys valSize : ℕ)
    (hop : cfg.engine.op R readPct (mkVal valSize) .kv = some op) {conns : ℕ} {zipf : Bool}
    {win : Window} {readings : Fin conns → List Reading} {s₀ : Shared σ}
    (hcache : s₀.keyCache = fun _ => none)
    {t : State (Shared σ) (Fin conns) Answer (List (Option String))}
    (ht : (kvRun st cfg R nKeys valSize conns zipf op win readings s₀).Reachable t) :
    (∀ a, st.content t.shared.store a = if a ∈ addresses cfg.engine nKeys
      then some (mkVal valSize) else st.content s₀.store a) ∧
    (addresses cfg.engine nKeys).toFinset.card = min nKeys (2 ^ 32) ∧
    ∀ w : Fin conns, (kvCalls R (mkKeys nKeys) zipf op win w (readings w)).map Call.request =
        (worker R (mkKeys nKeys) zipf op win w (readings w)).requests ∧
      (∀ a r, ⟨.get a, r⟩ ∈ t.trace w →
        a ∈ addresses cfg.engine nKeys ∧ (r = .found (mkVal valSize) ∨ ∃ msg, r = .failed msg)) ∧
      ∀ errs, t.prog w = .ret errs → (∀ ev ∈ t.trace w, Clean ev) → ∀ err ∈ errs, err = none := by
  have hspec (w : Fin conns) := kvCalls_spec hop (mkKeys nKeys) zipf win w (readings w)
  have hloaded : ∀ s, afterSetup st cfg (mkKeys nKeys) (mkVal valSize) s₀ s →
      Loaded st (st.content s₀.store) (mkVal valSize) (addresses cfg.engine nKeys) s := by
    rintro s ⟨u, hu, hret, rfl⟩
    refine meets_of_reachable (Q := Either (fun s _ => Loaded st (st.content s₀.store)
      (mkVal valSize) (addresses cfg.engine nKeys) s) fun _ _ => True) ?_ hu hret
    rintro s rfl
    refine setup_meets hst cfg ⟨by simp, ?_⟩ (mkKeys nKeys)
    intro key a ha
    rw [hcache] at ha
    cases ha
  obtain ⟨hshared, hworkers⟩ := under_of_reachable (Q := fun _ => NilsIfClean) hloaded
    (fun e o s hs ho => hs.keep hst e ho)
    (fun w => issue_under (hspec w).2 rfl (by simp [NilsIfClean])) ht
  refine ⟨hshared.content, card_addresses _ _, fun w => ⟨(hspec w).1, ?_, (hworkers w).2⟩⟩
  intro a r hmem
  exact (hworkers w).1 _ hmem

/-- Three workers on two records of Aerospike. -/
def threeWorkers : Config := { engine := .aerospike, sync := false, waitMs := 1000 }

def emptyMemory : Shared (Address → Option Bytes) where
  store _ := none
  keyCache _ := none

/-- The preload of the two records. -/
abbrev twoRecords :
    Transition.System (State (Shared (Address → Option Bytes)) Unit Answer (Except String Unit))
      (Unit × Bool) :=
  system memory.act (fun s => s = emptyMemory) fun _ => threeWorkers.setup (mkKeys 2) (mkVal 4)

def twoRecordsStart : State (Shared (Address → Option Bytes)) Unit Answer (Except String Unit) where
  shared := emptyMemory
  prog _ := threeWorkers.setup (mkKeys 2) (mkVal 4)
  trace _ := []

def twoRecordsEnd : State (Shared (Address → Option Bytes)) Unit Answer (Except String Unit) :=
  (List.replicate 6 ((), true)).foldl twoRecords.effect twoRecordsStart

/-- Half of the operations are reads. -/
def halfReads : Op UInt64 := fun rng key =>
  let (n, rng) := wordRand.intn 100 rng
  (if (n : ℤ) < 50 then .get key else .put key (mkVal 4), rng)

def sameReadings : Fin 3 → List Reading := fun _ => [⟨1, 1, 4, none⟩, ⟨6, 6, 9, none⟩]

/-- The first write of the second worker times out; the third one has only begun. -/
def threeWorkersSchedule : List (Fin 3 × Bool) :=
  [(0, true), (1, true), (1, false), (0, true), (2, true), (1, true), (1, true), (0, true),
    (0, true)]

theorem preloaded_run_three_workers :
    Engine.aerospike.op wordRand 50 (mkVal 4) .kv = some halfReads ∧
      ∃ t, (kvRun memory threeWorkers wordRand 2 4 3 false halfReads ⟨5, 20⟩ sameReadings
          emptyMemory).Run threeWorkersSchedule t ∧
        (t.prog 0).result = some [none, none] ∧
        (t.prog 1).result = some [some "timeout", none] ∧
        ∀ w a r, ⟨.get a, r⟩ ∈ t.trace w → r = .found (mkVal 4) ∨ ∃ msg, r = .failed msg := by
  refine ⟨rfl, ?_⟩
  have hsetup : twoRecords.Run (List.replicate 6 ((), true)) twoRecordsEnd := by
    have hreplay : (twoRecords.replay twoRecordsStart
        (List.replicate 6 ((), true))).isSome = true := by decide +kernel
    have hrun : twoRecords.Run [] twoRecordsStart := .start ⟨rfl, rfl, rfl⟩
    exact hrun.replay (Transition.System.replay_eq_foldl hreplay)
  have hdone : (twoRecordsEnd.prog ()).result = some (.ok ()) := by decide +kernel
  have hreplay : ((kvRun memory threeWorkers wordRand 2 4 3 false halfReads ⟨5, 20⟩ sameReadings
      emptyMemory).replay
        { shared := twoRecordsEnd.shared
          prog := fun w => threeWorkers.issue
            (kvCalls wordRand (mkKeys 2) false halfReads ⟨5, 20⟩ w (sameReadings w)) []
          trace := fun _ => [] } threeWorkersSchedule).map
      (fun t => ((t.prog 0).result, (t.prog 1).result)) =
        some (some [none, none], some [some "timeout", none]) := by decide +kernel
  obtain ⟨t, hrun, hresult⟩ := Transition.System.run_of_replay hreplay
    ⟨⟨_, hsetup.reachable, Prog.eq_ret_of_result hdone, rfl⟩, rfl, rfl⟩
  refine ⟨t, hrun, congrArg Prod.fst hresult, congrArg Prod.snd hresult, ?_⟩
  intro w a r hmem
  exact (((preloaded_run memory_lawful threeWorkers 2 4 rfl rfl hrun.reachable).2.2 w).2.1 a r hmem).2

end RostamBench.Netkv.Preload
