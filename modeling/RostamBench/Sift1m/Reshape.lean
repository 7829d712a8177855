import RostamBench.Sift1m.Fvecs

/-!
`read_fvecs` of the Python clients, and its agreement with the Go reader.

Where Go walks from record to record, Python reads the whole file as an array of
32-bit words, takes the first word for the dimension of all vectors, and cuts the
array into rows by index arithmetic. On the file of vectors of one dimension both
give the vectors back, so the row the ground truth calls `i` is the vector the server
has indexed under `i + 1`.
-/

namespace RostamBench.Sift1m.PyClient

open BigEndian LittleEndian

/-! ### The readers -/

/-- `np.fromfile(path, dtype="int32")` on a little-endian host; a word is kept by its
bits. -/
def fromfile (data : Bytes) : List UInt32 := wordsOf (data.length / 4) data

/-- `x.reshape(-1, cols)`; `none` is the `ValueError` of a shape that does not fit. -/
def reshape (x : List UInt32) (cols : ℤ) : Option (List (List UInt32)) :=
  if cols ≤ 0 then none
  else if x.length % cols.toNat ≠ 0 then none
  else some (rows cols.toNat (x.length / cols.toNat) x)

/-- `x.reshape(-1, d + 1)[:, 1:].copy()` with `d = int(x[0])`; there is no first word
in an empty file. -/
def readVecs (data : Bytes) : Option (List (List UInt32)) :=
  let x := fromfile data
  match x with
  | [] => none
  | word :: _ => (reshape x (word.toInt32.toInt + 1)).map fun rows => rows.map (List.drop 1)

/-- The words viewed as `float32`, by their bits. -/
def readFvecs (data : Bytes) : Option (List (List UInt32)) := readVecs data

def readIvecs (data : Bytes) : Option (List (List ℤ)) :=
  (readVecs data).map fun rows => rows.map fun row => row.map fun word => word.toInt32.toInt

/-- `set(int(x) + 1 for x in gt[i])`. -/
def truth (row : List ℤ) : List ℤ := row.map (· + 1)

/-- `ids[i] = uint64(i + 1)`, for every vector of `base`. -/
def serverIds (base : List (List UInt32)) : List UInt64 :=
  (List.range base.length).map fun i => UInt64.ofNat (i + 1)

/-- What `coll.BuildConcurrent(ids, base, ..)` is given to index. -/
def indexed (base : List (List UInt32)) : List (UInt64 × List UInt32) :=
  (serverIds base).zip base

/-! ### Agreement -/

variable {d : ℕ} {vs : List (List UInt32)}

/-- A vector with its header, in words. -/
def wordsOfVec (v : List UInt32) : List UInt32 := UInt32.ofNat v.length :: v

/-- The file of a list of vectors is an array of words. -/
theorem encode_eq_bytesOfWords (h : ∀ v ∈ vs, v.length < 2 ^ 32) :
    encode vs = bytesOfWords (vs.map wordsOfVec).flatten := by
  induction vs with
  | nil => rfl
  | cons v vs ih =>
      obtain ⟨hv, hvs⟩ := List.forall_mem_cons.mp h
      have hvec : encodeVec v = bytesOfWords (wordsOfVec v) := by
        rw [wordsOfVec, bytesOfWords_cons, wordBytes, UInt32.toNat_ofNat_of_lt' hv, encodeVec]
      rw [List.map_cons, List.flatten_cons, bytesOfWords_append, ← hvec, ← ih hvs, encode, encode,
        List.flatMap_cons]

theorem fromfile_bytesOfWords (ws : List UInt32) : fromfile (bytesOfWords ws) = ws := by
  have hwords := wordsOf_bytesOfWords ws []
  rw [List.append_nil] at hwords
  rw [fromfile, length_bytesOfWords, Nat.mul_div_cancel_left _ (by decide), hwords]

/-- A dimension that an `int32` can hold is read back. -/
theorem toInt_toInt32_ofNat (hd : d < 2 ^ 31) : (UInt32.ofNat d).toInt32.toInt = d := by
  rw [UInt32.toInt32_ofNat', Int32.toInt_ofNat_of_lt hd]

theorem length_flatten_wordsOfVec (hvs : ∀ v ∈ vs, v.length = d) :
    (vs.map wordsOfVec).flatten.length = vs.length * (d + 1) := by
  induction vs with
  | nil => simp
  | cons v vs ih =>
      obtain ⟨hv, hvs⟩ := List.forall_mem_cons.mp hvs
      rw [List.map_cons, List.flatten_cons, List.length_append, ih hvs, List.length_cons,
        Nat.succ_mul, wordsOfVec, List.length_cons, hv, Nat.add_comm]

theorem readVecs_eq {data : Bytes} {word : UInt32} {ws : List UInt32}
    (h : fromfile data = word :: ws) :
    readVecs data = (reshape (word :: ws) (word.toInt32.toInt + 1)).map fun rows =>
      rows.map (List.drop 1) := by
  rw [readVecs, h]

/-- Python reads the vectors back. -/
theorem readFvecs_encode (hn : 1 ≤ vs.length) (hd : d < 2 ^ 31) (hvs : ∀ v ∈ vs, v.length = d) :
    readFvecs (encode vs) = some vs := by
  have hlt : ∀ v ∈ vs, v.length < 2 ^ 32 := by
    intro v hv
    rw [hvs v hv]
    omega
  have hrow : ∀ row ∈ vs.map wordsOfVec, row.length = d + 1 := by
    intro row hrow
    obtain ⟨v, hv, rfl⟩ := List.mem_map.mp hrow
    rw [wordsOfVec, List.length_cons, hvs v hv]
  have hlength := length_flatten_wordsOfVec hvs
  have hfile : fromfile (encode vs) = (vs.map wordsOfVec).flatten := by
    rw [encode_eq_bytesOfWords hlt, fromfile_bytesOfWords]
  have hcols : ((d : ℤ) + 1).toNat = d + 1 := by omega
  have hreshape : reshape (vs.map wordsOfVec).flatten ((d : ℤ) + 1) =
      some (vs.map wordsOfVec) := by
    have hpos : ¬ (d : ℤ) + 1 ≤ 0 := by omega
    have hrows := rows_flatten hrow
    rw [List.length_map] at hrows
    rw [reshape, if_neg hpos, hcols, hlength, Nat.mul_mod_left, if_neg (by simp),
      Nat.mul_div_cancel _ (Nat.succ_pos d), hrows]
  cases vs with
  | nil => simp at hn
  | cons v vs =>
      have hhead : ((v :: vs).map wordsOfVec).flatten =
          UInt32.ofNat d :: (v ++ (vs.map wordsOfVec).flatten) := by
        rw [List.map_cons, List.flatten_cons, wordsOfVec, hvs v List.mem_cons_self]
        rfl
      rw [readFvecs, readVecs_eq (hfile.trans hhead), ← hhead, toInt_toInt32_ofNat hd, hreshape]
      simp [wordsOfVec, Function.comp_def]

/-! ### Ids -/

theorem toNat_ofNat {n : ℕ} (h : n < 2 ^ 64) : (UInt64.ofNat n).toNat = n :=
  UInt64.toNat_ofNat_of_lt' h

/-- Ids that do not wrap around tell the vectors apart. -/
theorem lookup_range' {α : Type*} {base : List α} {k j : ℕ} (hlen : k + base.length < 2 ^ 64)
    (hj : j < base.length) :
    (((List.range' k base.length).map fun i => UInt64.ofNat (i + 1)).zip base).lookup
      (UInt64.ofNat (k + j + 1)) = base[j]? := by
  induction base generalizing k j with
  | nil => simp at hj
  | cons v base ih =>
      rw [List.length_cons] at hlen hj
      rw [List.length_cons, List.range'_succ, List.map_cons, List.zip_cons_cons,
        List.lookup_cons]
      cases j with
      | zero => simp
      | succ j =>
          have hne : UInt64.ofNat (k + (j + 1) + 1) ≠ UInt64.ofNat (k + 1) := by
            intro heq
            have hnat := congrArg UInt64.toNat heq
            rw [toNat_ofNat (by omega), toNat_ofNat (by omega)] at hnat
            omega
          have hnext := ih (k := k + 1) (j := j) (by omega) (by omega)
          have hindex : k + 1 + j + 1 = k + (j + 1) + 1 := by omega
          rw [hindex] at hnext
          rw [beq_eq_false_iff_ne.mpr hne, List.getElem?_cons_succ, ← hnext]

/-- The server indexes vector `i` under `i + 1`. -/
theorem lookup_indexed {base : List (List UInt32)} {i : ℕ} (hlen : base.length < 2 ^ 63)
    (hi : i < base.length) : (indexed base).lookup (UInt64.ofNat (i + 1)) = base[i]? := by
  have hlookup := lookup_range' (k := 0) (j := i) (show 0 + base.length < 2 ^ 64 by omega) hi
  rwa [Nat.zero_add, ← List.range_eq_range'] at hlookup

theorem length_le_length_encode (vs : List (List UInt32)) : vs.length ≤ (encode vs).length := by
  induction vs with
  | nil => simp
  | cons v vs ih =>
      have hvec : 4 ≤ (encodeVec v).length := by
        rw [encodeVec, List.length_append, length_leBytes]
        omega
      rw [encode, List.flatMap_cons, List.length_append, List.length_cons]
      rw [encode] at ih
      omega

/-- On the file of vectors of one dimension the two readers return the same rows,
and the id the server gives row `i` is the one the ground truth means by `i`. -/
theorem readers_agree (hn : 1 ≤ vs.length) (hd : d < 2 ^ 31) (hvs : ∀ v ∈ vs, v.length = d)
    {file : File} (hfile : file.data = encode vs) {fuel : ℕ} (hfuel : file.data.length < fuel) :
    readFvecs file.data = some vs ∧ Sift1m.readFvecs file fuel = .returned vs ∧
      ∀ i < vs.length, (indexed vs).lookup (UInt64.ofNat (i + 1)) = vs[i]? ∧
        ∀ row : List ℤ, (i : ℤ) ∈ row → ((UInt64.ofNat (i + 1)).toNat : ℤ) ∈ truth row := by
  have hlt : ∀ v ∈ vs, v.length < 2 ^ 32 := by
    intro v hv
    rw [hvs v hv]
    omega
  have hlen : vs.length < 2 ^ 63 := by
    have hle := length_le_length_encode vs
    have hdata := file.length_lt
    rw [hfile] at hdata
    omega
  refine ⟨?_, Sift1m.readFvecs_encode hlt hfile hfuel, ?_⟩
  · rw [hfile]
    exact readFvecs_encode hn hd hvs
  · intro i hi
    refine ⟨lookup_indexed hlen hi, ?_⟩
    intro row hrow
    rw [toNat_ofNat (by omega)]
    exact List.mem_map.mpr ⟨i, hrow, by omega⟩

/-- Two vectors of dimension one. -/
def twoVectors : File where
  data := [1, 0, 0, 0, 0, 0, 128, 63, 1, 0, 0, 0, 0, 0, 0, 64]
  length_lt := by decide

theorem readers_agree_two :
    readFvecs twoVectors.data = some [[0x3f800000], [0x40000000]] ∧
      Sift1m.readFvecs twoVectors 17 = .returned [[0x3f800000], [0x40000000]] := by
  have hfile : twoVectors.data = encode [[0x3f800000], [0x40000000]] := by decide
  have hfuel : twoVectors.data.length < 17 := by decide
  have hagree := readers_agree (d := 1) (by decide) (by decide) (by decide) hfile hfuel
  exact ⟨hagree.1, hagree.2.1⟩

end RostamBench.Sift1m.PyClient
