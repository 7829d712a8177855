import RostamBench.Vectordbbench.Client

/-!
`prepare_filter`, and what a query asks for after any sequence of its calls.

The client keeps the filter twice: the tree `query_filter`, which the JSON branch
of `search_embedding` sends, and its text `_filter_blob`, encoded once so that
the binary branch need not do it per query. A call sets the tree before it makes
the text, and `json.dumps` raises for an integer of more than 4300 digits. Without
such an integer the two are the copies of one tree after every sequence of calls
(`FilterState.ofTree`), that of the last call which did not raise (`after_eq`); with
one they are not (`filters_in_step_iff`).
-/

namespace RostamBench.Vectordbbench

open BigEndian

/-- The filters of a benchmark case; `text` is what `{filters}` prints for a type
the client does not support. -/
inductive Filter
  | nonFilter
  | numGE (intField : String) (intValue : ℤ)
  | unsupported (text : String)
  deriving DecidableEq, Repr

/-- `{"op": "gte", "field": field, "value": {"kind": "int", "int": value}}`. -/
def filterTree (field : String) (value : ℤ) : Json.Value :=
  .obj [("op", .str "gte"), ("field", .str field),
    ("value", .obj [("kind", .str "int"), ("int", .int value)])]

/-- `sys.int_info.default_max_str_digits`. -/
def maxStrDigits : ℕ := 4300

/-- `str(n)` does not raise. -/
def intPrints (n : ℤ) : Bool := n.natAbs < 10 ^ maxStrDigits

def exceedsLimit : PyErr :=
  .valueError ("Exceeds the limit (" ++ toString maxStrDigits ++ " digits) for integer string " ++
    "conversion; use sys.set_int_max_str_digits() to increase the limit")

mutual

/-- The integers of a value. -/
def ints : Json.Value → List ℤ
  | .null | .bool _ | .str _ => []
  | .int n => [n]
  | .arr items => intsOfItems items
  | .obj members => intsOfMembers members

def intsOfItems : List Json.Value → List ℤ
  | [] => []
  | v :: items => ints v ++ intsOfItems items

def intsOfMembers : List (String × Json.Value) → List ℤ
  | [] => []
  | (_, v) :: members => ints v ++ intsOfMembers members

end

/-- The text `json.dumps` writes, in bytes. -/
def jsonText (v : Json.Value) : Bytes := Json.encode (Json.dumps [' '] v)

/-- `json.dumps(v).encode()`. -/
def jsonDumps (v : Json.Value) : Except PyErr Bytes :=
  if (ints v).all intPrints then .ok (jsonText v) else .error exceedsLimit

def bulkStoresNoPayload : PyErr :=
  .runtimeError ("Rostam filter cases require load_path='payload' (or 'batch'); " ++
    "load_path='bulk' stores no payload to filter on")

/-- `prepare_filter`: the state it leaves, and what it raised. -/
def prepareFilter (p : LoadPath) (filters : Filter) (s : FilterState) :
    FilterState × Option PyErr :=
  match filters with
  | .nonFilter => ({ queryFilter := none, filterBlob := [] }, none)
  | .numGE field value =>
      if p = .bulk then (s, some bulkStoresNoPayload)
      else
        -- the tree is set by the time the text is made
        let s := { s with queryFilter := some (filterTree field value) }
        match jsonDumps (filterTree field value) with
        | .ok blob => ({ s with filterBlob := blob }, none)
        | .error err => (s, some err)
  | .unsupported text => (s, some (.runtimeError ("unsupported filter for Rostam: " ++ text)))

/-- The filter state `__init__` sets up. -/
def FilterState.initial : FilterState := { queryFilter := none, filterBlob := [] }

/-- One more call: the state it leaves, and the most recent call that did not
raise. -/
def prepareNext (p : LoadPath) (x : FilterState × Option Filter) (f : Filter) :
    FilterState × Option Filter :=
  ((prepareFilter p f x.1).1, if (prepareFilter p f x.1).2 = none then some f else x.2)

def prepareAll (p : LoadPath) (calls : List Filter) : FilterState × Option Filter :=
  calls.foldl (prepareNext p) (.initial, none)

/-- The state after a sequence of calls, those that raised included. -/
def FilterState.after (p : LoadPath) (calls : List Filter) : FilterState := (prepareAll p calls).1

/-- The most recent call of the sequence that did not raise. -/
def lastAccepted (p : LoadPath) (calls : List Filter) : Option Filter := (prepareAll p calls).2

theorem prepareAll_append (p : LoadPath) (calls : List Filter) (f : Filter) :
    prepareAll p (calls ++ [f]) = prepareNext p (prepareAll p calls) f := by
  simp [prepareAll]

/-! ### What a call does -/

/-- The tree of a filter. -/
def Filter.tree : Filter → Option Json.Value
  | .numGE field value => some (filterTree field value)
  | .nonFilter | .unsupported _ => none

/-- The integer of the filter can be written. -/
def Filter.Prints : Filter → Prop
  | .numGE _ value => intPrints value = true
  | .nonFilter | .unsupported _ => True

/-- The two copies of a tree. -/
def FilterState.ofTree : Option Json.Value → FilterState
  | none => .initial
  | some v => { queryFilter := some v, filterBlob := jsonText v }

theorem FilterState.queryFilter_ofTree (v : Option Json.Value) :
    (ofTree v).queryFilter = v := by
  cases v <;> rfl

variable {p : LoadPath} {field : String} {value : ℤ} {s : FilterState}

theorem jsonDumps_filterTree (field : String) (value : ℤ) :
    jsonDumps (filterTree field value) =
      if intPrints value then .ok (jsonText (filterTree field value)) else .error exceedsLimit := by
  simp [jsonDumps, filterTree, ints, intsOfMembers]

theorem prepareFilter_numGE (hp : p ≠ .bulk) (h : (Filter.numGE field value).Prints) :
    prepareFilter p (.numGE field value) s = (.ofTree (some (filterTree field value)), none) := by
  have hprints : intPrints value = true := h
  rw [prepareFilter, if_neg hp, jsonDumps_filterTree, if_pos hprints]
  rfl

/-- Only the tree is set. -/
theorem prepareFilter_tooLong (hp : p ≠ .bulk) (h : ¬ (Filter.numGE field value).Prints) :
    prepareFilter p (.numGE field value) s =
      ({ s with queryFilter := some (filterTree field value) }, some exceedsLimit) := by
  have hprints : intPrints value = false := Bool.eq_false_of_not_eq_true h
  rw [prepareFilter, if_neg hp, jsonDumps_filterTree, hprints]
  rfl

/-- A call whose integer can be written sets both copies or raises and touches neither; under
`bulk` every call does, and sets them to the empty filter only. -/
theorem prepareFilter_cases (f : Filter) (s : FilterState) (h : p = .bulk ∨ f.Prints) :
    (prepareFilter p f s = (.ofTree f.tree, none) ∧ (p = .bulk → f.tree = none)) ∨
      ∃ err, prepareFilter p f s = (s, some err) := by
  cases f with
  | nonFilter => exact Or.inl ⟨rfl, fun _ => rfl⟩
  | numGE field value =>
      by_cases hp : p = .bulk
      · exact Or.inr ⟨bulkStoresNoPayload, by rw [prepareFilter, if_pos hp]⟩
      · exact Or.inl ⟨prepareFilter_numGE hp (h.resolve_left hp), fun h => absurd h hp⟩
  | unsupported text => exact Or.inr ⟨_, rfl⟩

/-- The two copies are those of the last accepted filter. -/
theorem after_eq {calls : List Filter} (h : p = .bulk ∨ ∀ f ∈ calls, f.Prints) :
    FilterState.after p calls = .ofTree ((lastAccepted p calls).bind Filter.tree) ∧
      (p = .bulk → (lastAccepted p calls).bind Filter.tree = none) := by
  induction calls using List.reverseRecOn with
  | nil => exact ⟨rfl, fun _ => rfl⟩
  | append_singleton calls f ih =>
      have hcalls := ih (h.imp_right fun h g hg => h g (List.mem_append_left _ hg))
      have hf : p = .bulk ∨ f.Prints := h.imp_right fun h => h f (by simp)
      rw [FilterState.after, lastAccepted] at hcalls ⊢
      rw [prepareAll_append, prepareNext]
      rcases prepareFilter_cases f (prepareAll p calls).1 hf with ⟨h, hbulk⟩ | ⟨err, h⟩
      · rw [h]
        exact ⟨rfl, hbulk⟩
      · rw [h]
        exact hcalls

theorem mem_of_lastAccepted {calls : List Filter} {g : Filter}
    (h : lastAccepted p calls = some g) : g ∈ calls := by
  induction calls using List.reverseRecOn with
  | nil => cases h
  | append_singleton calls f ih =>
      rw [lastAccepted, prepareAll_append, prepareNext] at h
      dsimp only at h
      split at h
      · obtain rfl := Option.some.inj h
        simp
      · exact List.mem_append_left _ (ih h)

/-! ### The two queries -/

theorem jsonText_ne_nil (v : Json.Value) : jsonText v ≠ [] := by
  obtain ⟨c, cs, hv, _⟩ := Json.exists_dumps [' '] v
  intro h
  have hchar : String.utf8EncodeChar c ≠ [] := by
    apply List.ne_nil_of_length_pos
    rw [String.length_utf8EncodeChar]
    exact c.utf8Size_pos
  rw [jsonText, hv, Json.encode, List.flatMap_cons] at h
  exact hchar (List.append_eq_nil_iff.mp h).1

theorem loads_jsonText (v : Json.Value) : Json.loads (jsonText v) = some v :=
  Json.loads_encode_dumps (by simp [Json.isBlank]) v

/-- From the two copies of one tree the two queries ask the same. -/
theorem decodeQuery_ofTree (v : Option Json.Value) {query : List UInt32} {k : ℤ} {body : Bytes}
    (hbody : queryBody query k (FilterState.ofTree v).filterBlob = .ok body) :
    decodeQuery body = some (jsonQuery (.ofTree v) query k).request := by
  have hfits := (queryBody_isOk_iff query k _).mp ⟨body, hbody⟩
  cases v with
  | none =>
      have hfilter : (FilterState.ofTree none).filterBlob = [] := rfl
      exact decodeQuery_queryBody none hfits hfilter hbody
  | some v =>
      exact decodeQuery_queryBody (some v) hfits
        ⟨jsonText_ne_nil v, loads_jsonText v⟩ hbody

/-- What the two queries agree on after these calls: the binary query exists when its
numbers fit their fields, and read by the RVQ1 grammar to its last byte it asks for the
query, `k` and filter of the JSON query; that filter is the one of the most recent call
that did not raise; and under `bulk` there is none. -/
structure AskTheSame (p : LoadPath) (calls : List Filter) : Prop where
  exists_body : ∀ query k,
    (∃ body, queryBody query k (FilterState.after p calls).filterBlob = .ok body) ↔
      QueryFits query k (FilterState.after p calls).filterBlob
  decodeQuery : ∀ query k body,
    queryBody query k (FilterState.after p calls).filterBlob = .ok body →
      Vectordbbench.decodeQuery body = some (jsonQuery (.after p calls) query k).request
  queryFilter : (FilterState.after p calls).queryFilter = (lastAccepted p calls).bind Filter.tree
  bulk : p = .bulk → FilterState.after p calls = .initial

/-- They agree after every one of the calls, and a call that raises leaves both copies as
they were. -/
def FiltersInStep (p : LoadPath) (calls : List Filter) : Prop :=
  ∀ before, before <+: calls → AskTheSame p before ∧
    ∀ f, before ++ [f] <+: calls → (prepareFilter p f (.after p before)).2 ≠ none →
      FilterState.after p (before ++ [f]) = .after p before

theorem after_append (p : LoadPath) (calls : List Filter) (f : Filter) :
    FilterState.after p (calls ++ [f]) = (prepareFilter p f (.after p calls)).1 := by
  rw [FilterState.after, prepareAll_append]
  rfl

theorem askTheSame {calls : List Filter} (h : p = .bulk ∨ ∀ f ∈ calls, f.Prints) :
    AskTheSame p calls := by
  obtain ⟨hafter, hbulk⟩ := after_eq h
  constructor
  case exists_body => exact fun query k => queryBody_isOk_iff query k _
  case decodeQuery =>
    intro query k body hbody
    rw [hafter] at hbody ⊢
    exact decodeQuery_ofTree _ hbody
  case queryFilter => rw [hafter, FilterState.queryFilter_ofTree]
  case bulk =>
    intro hp
    rw [hafter, hbulk hp]
    rfl

/-- The filter of a query is never one that cannot be written, as long as the copies are
in step; a call with such a filter sets it all the same. -/
theorem prints_of_inStep {calls : List Filter} {f : Filter} (hp : p ≠ .bulk)
    (hcalls : ∀ g ∈ calls, g.Prints) (h : FiltersInStep p (calls ++ [f])) : f.Prints := by
  by_contra hf
  cases f with
  | nonFilter | unsupported text => exact hf trivial
  | numGE field value =>
      have hraised := (h calls (List.prefix_append _ _)).2 _ List.prefix_rfl
      rw [after_append, prepareFilter_tooLong hp hf] at hraised
      have htree : some (filterTree field value) = (lastAccepted p calls).bind Filter.tree := by
        rw [← (askTheSame (Or.inr hcalls)).queryFilter, ← hraised (by simp)]
      cases hlast : lastAccepted p calls with
      | none => simp [hlast] at htree
      | some g =>
          have hg := hcalls g (mem_of_lastAccepted hlast)
          rw [hlast, Option.bind_some] at htree
          cases g with
          | nonFilter | unsupported text => cases htree
          | numGE field' value' =>
              have heq : field = field' ∧ value = value' := by
                simpa [Filter.tree, filterTree] using htree
              exact hf (heq.2 ▸ hg)

/-- The two copies of the filter stay in step exactly if no filter is set whose integer
has too many digits to be written. -/
theorem filters_in_step_iff (p : LoadPath) (calls : List Filter) :
    FiltersInStep p calls ↔ p = .bulk ∨ ∀ f ∈ calls, f.Prints := by
  constructor
  · intro h
    by_cases hp : p = .bulk
    · exact Or.inl hp
    · right
      induction calls using List.reverseRecOn with
      | nil => simp
      | append_singleton calls f ih =>
          have hcalls := ih fun before hbefore =>
            have hmore := h before (hbefore.trans (List.prefix_append _ _))
            ⟨hmore.1, fun g hg => hmore.2 g (hg.trans (List.prefix_append _ _))⟩
          have hf := prints_of_inStep hp hcalls h
          intro g hg
          rcases List.mem_append.mp hg with hg | hg
          · exact hcalls g hg
          · rwa [List.mem_singleton.mp hg]
  · intro h before hbefore
    refine ⟨askTheSame (h.imp_right fun h f hf => h f (hbefore.subset hf)), ?_⟩
    intro f hf hraised
    rw [after_append]
    have hprints : p = .bulk ∨ f.Prints := h.imp_right fun h => h f (hf.subset (by simp))
    rcases prepareFilter_cases f (.after p before) hprints with ⟨h, _⟩ | ⟨err, h⟩
    · exact absurd (by rw [h]) hraised
    · rw [h]

/-- The tree is set and the text is not, so that the binary query has no filter and the
JSON query has one. -/
theorem filters_out_of_step_after_raise :
    let calls := [Filter.numGE "id" (10 ^ 4300)]
    (prepareFilter .payload (.numGE "id" (10 ^ 4300)) .initial).2 ≠ none ∧
      (∃ body, queryBody [0x3f800000] 10 (FilterState.after .payload calls).filterBlob = .ok body ∧
        decodeQuery body ≠ some (jsonQuery (.after .payload calls) [0x3f800000] 10).request) ∧
      ¬ FiltersInStep .payload calls := by
  have hlong : ¬ (Filter.numGE "id" (10 ^ 4300)).Prints := by
    have hdigits : (10 : ℤ) ^ 4300 = ((10 ^ maxStrDigits : ℕ) : ℤ) := by
      rw [Nat.cast_pow, Nat.cast_ofNat, maxStrDigits]
    show ¬ intPrints (10 ^ 4300) = true
    rw [hdigits, intPrints, Int.natAbs_natCast, decide_eq_true_eq]
    exact lt_irrefl _
  have hcall : prepareFilter .payload (.numGE "id" (10 ^ 4300)) .initial =
      ({ FilterState.initial with queryFilter := some (filterTree "id" (10 ^ 4300)) },
        some exceedsLimit) :=
    prepareFilter_tooLong (by decide) hlong
  have hafter : FilterState.after .payload [.numGE "id" (10 ^ 4300)] =
      { FilterState.initial with queryFilter := some (filterTree "id" (10 ^ 4300)) } :=
    (after_append .payload [] _).trans (congrArg Prod.fst hcall)
  obtain ⟨body, hbody⟩ := (queryBody_isOk_iff [0x3f800000] 10 []).mpr
    ⟨by decide, by decide, by decide⟩
  have hdecode : decodeQuery body =
      some (jsonQuery .initial [0x3f800000] 10).request := decodeQuery_ofTree none hbody
  have hdiffer : decodeQuery body ≠ some (jsonQuery
      { FilterState.initial with queryFilter := some (filterTree "id" (10 ^ 4300)) }
      [0x3f800000] 10).request := by
    rw [hdecode]
    intro heq
    have hfilter := congrArg SearchRequest.filter (Option.some.inj heq)
    cases hfilter
  dsimp only
  rw [hcall, hafter]
  refine ⟨by simp, ⟨body, hbody, hdiffer⟩, ?_⟩
  intro h
  have hask := (h [.numGE "id" (10 ^ 4300)] List.prefix_rfl).1.decodeQuery [0x3f800000] 10 body
  rw [hafter] at hask
  exact hdiffer (hask hbody)

end RostamBench.Vectordbbench
