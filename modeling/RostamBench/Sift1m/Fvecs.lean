import RostamBench.Lib.LittleEndian
import Mathlib.Data.Nat.Init

/-!
`readFvecs`: the dataset reader of the SIFT servers.

A file is a concatenation of records `[dim u32 LE][dim x 4 bytes]` (`Record`). The
reader walks it with an offset, checks twice that what it is about to read is there,
and stops with an error where it is not. Offsets are Go's 64-bit `int`s and add with
wrap-around; a slice out of range is a panic.

The reader accepts the concatenations of records and nothing else
(`readFvecs_accepts_iff`). It takes one step of its loop for each record, and a step
moves the offset by four at least, so it comes to an end also where all vectors are
empty.
-/

namespace RostamBench.Sift1m

open BigEndian LittleEndian

/-- A file as `os.ReadFile` returns it: the length of a slice is an `int`. -/
structure File where
  data : Bytes
  length_lt : data.length < 2 ^ 63

inductive ReadErr
  | truncatedHeader (off : Int64)
  | truncatedVector (off : Int64)
  deriving DecidableEq, Repr

def ReadErr.message : ReadErr → String
  | .truncatedHeader off => "fvecs: truncated header at " ++ toString off
  | .truncatedVector off => "fvecs: truncated vector at " ++ toString off

/-- How the loop ends, if it does. Components are the bits of a `float32`. -/
inductive Outcome
  | running
  | panicked
  | failed (err : ReadErr)
  | returned (out : List (List UInt32))
  deriving DecidableEq, Repr

/-- `binary.LittleEndian.Uint32(data[off:])`; `none` is a panic. -/
def uint32At (data : Bytes) (off : Int64) : Option UInt32 :=
  if 0 ≤ off ∧ off ≤ Int64.ofNat data.length ∧ 4 ≤ (data.drop off.toInt.toNat).length then
    some (wordAt (data.drop off.toInt.toNat))
  else none

/-- The components of a vector that starts at `off`. -/
def readVector (data : Bytes) (off : Int64) (dim : ℕ) : Option (List UInt32) :=
  (List.range dim).mapM fun i => uint32At data (off + Int64.ofNat i * 4)

/-- The loop, for `fuel` iterations at most. -/
def readLoop (data : Bytes) : ℕ → Int64 → List (List UInt32) → Outcome
  | 0, _, _ => .running
  | fuel + 1, off, out =>
      if off < Int64.ofNat data.length then
        if Int64.ofNat data.length < off + 4 then .failed (.truncatedHeader off)
        else
          match uint32At data off with
          | none => .panicked
          | some word =>
              let dim := Int64.ofNat word.toNat
              let off := off + 4
              if Int64.ofNat data.length < off + dim * 4 then .failed (.truncatedVector off)
              else
                match readVector data off word.toNat with
                | none => .panicked
                | some v => readLoop data fuel (off + dim * 4) (out ++ [v])
      else .returned out

def readFvecs (file : File) (fuel : ℕ) : Outcome := readLoop file.data fuel 0 []

/-! ### The format -/

/-- A record of the format. -/
structure Record where
  dim : ℕ
  payload : Bytes
  dim_lt : dim < 2 ^ 32
  length_payload : payload.length = 4 * dim

def Record.bytes (r : Record) : Bytes := leBytes 4 r.dim ++ r.payload

/-- The vector of a record. -/
def Record.vector (r : Record) : List UInt32 := wordsOf r.dim r.payload

/-- The record of a vector. -/
def Record.ofVector (v : List UInt32) (h : v.length < 2 ^ 32) : Record where
  dim := v.length
  payload := bytesOfWords v
  dim_lt := h
  length_payload := length_bytesOfWords v

/-- A vector as the format stores it. -/
def encodeVec (v : List UInt32) : Bytes := leBytes 4 v.length ++ bytesOfWords v

/-- The file of a list of vectors. -/
def encode (vs : List (List UInt32)) : Bytes := vs.flatMap encodeVec

theorem Record.length_bytes (r : Record) : r.bytes.length = 4 + 4 * r.dim := by
  rw [Record.bytes, List.length_append, length_leBytes, r.length_payload]

theorem Record.vector_ofVector (v : List UInt32) (h : v.length < 2 ^ 32) :
    (Record.ofVector v h).vector = v := by
  simpa [Record.vector, Record.ofVector] using wordsOf_bytesOfWords v []

theorem encode_eq_records {vs : List (List UInt32)} (h : ∀ v ∈ vs, v.length < 2 ^ 32) :
    ∃ recs : List Record, encode vs = recs.flatMap Record.bytes ∧ recs.map Record.vector = vs := by
  induction vs with
  | nil => exact ⟨[], rfl, rfl⟩
  | cons v vs ih =>
      obtain ⟨hv, hvs⟩ := List.forall_mem_cons.mp h
      obtain ⟨recs, hbytes, hvectors⟩ := ih hvs
      refine ⟨Record.ofVector v hv :: recs, ?_, ?_⟩
      · rw [encode, List.flatMap_cons, List.flatMap_cons]
        exact congrArg (encodeVec v ++ ·) hbytes
      · rw [List.map_cons, Record.vector_ofVector, hvectors]

/-- The header of a record. -/
theorem Record.wordAt_bytes (r : Record) (rest : Bytes) :
    (wordAt (r.bytes ++ rest)).toNat = r.dim := by
  have hword : leBytes 4 r.dim = wordBytes (UInt32.ofNat r.dim) := by
    rw [wordBytes, UInt32.toNat_ofNat_of_lt' r.dim_lt]
  rw [Record.bytes, List.append_assoc, hword, wordAt_wordBytes_append,
    UInt32.toNat_ofNat_of_lt' r.dim_lt]

theorem Record.wordsOf_payload (r : Record) (rest : Bytes) :
    wordsOf r.dim (r.payload ++ rest) = r.vector := by
  have hpayload : bytesOfWords r.vector = r.payload := by
    rw [Record.vector, bytesOfWords_wordsOf (by rw [r.length_payload]), ← r.length_payload,
      List.take_length]
  have hwords := wordsOf_bytesOfWords r.vector rest
  rwa [hpayload, Record.vector, length_wordsOf] at hwords

/-- Cutting off a record that is there. -/
theorem exists_record {bs : Bytes} (hlen : 4 + 4 * (wordAt bs).toNat ≤ bs.length) :
    ∃ r : Record, r.dim = (wordAt bs).toNat ∧ r.bytes = bs.take (4 + 4 * r.dim) := by
  have hpayload : ((bs.drop 4).take (4 * (wordAt bs).toNat)).length = 4 * (wordAt bs).toNat := by
    rw [List.length_take, List.length_drop]
    omega
  refine ⟨⟨(wordAt bs).toNat, (bs.drop 4).take (4 * (wordAt bs).toNat), (wordAt bs).toNat_lt,
    hpayload⟩, rfl, ?_⟩
  have hheader : leBytes 4 (wordAt bs).toNat = bs.take 4 := wordBytes_wordAt (by omega)
  rw [Record.bytes, hheader, List.take_add]

/-! ### One iteration -/

variable {data : Bytes} {o fuel : ℕ} {out : List (List UInt32)}

theorem ofNat_lt_ofNat {a b : ℕ} (ha : a < 2 ^ 63) (hb : b < 2 ^ 63) :
    Int64.ofNat a < Int64.ofNat b ↔ a < b := by
  rw [Int64.lt_iff_toInt_lt, Int64.toInt_ofNat_of_lt ha, Int64.toInt_ofNat_of_lt hb,
    Int.ofNat_lt]

theorem uint32At_eq (hlen : data.length < 2 ^ 63) (h : o + 4 ≤ data.length) :
    uint32At data (Int64.ofNat o) = some (wordAt (data.drop o)) := by
  have ho : (Int64.ofNat o).toInt = o := Int64.toInt_ofNat_of_lt (by omega)
  have hnonneg : 0 ≤ Int64.ofNat o := by
    rw [Int64.le_iff_toInt_le, ho]
    exact Int.natCast_nonneg o
  have hle : Int64.ofNat o ≤ Int64.ofNat data.length := by
    rw [Int64.le_iff_toInt_le, ho, Int64.toInt_ofNat_of_lt hlen]
    omega
  have hfour : 4 ≤ (data.drop o).length := by
    rw [List.length_drop]
    omega
  rw [uint32At, ho, Int.toNat_natCast, if_pos ⟨hnonneg, hle, hfour⟩]

theorem mapM_eq_some_map {α β : Type*} {f : α → Option β} {g : α → β} {xs : List α}
    (h : ∀ x ∈ xs, f x = some (g x)) : xs.mapM f = some (xs.map g) := by
  induction xs with
  | nil => rfl
  | cons x xs ih =>
      obtain ⟨hx, hxs⟩ := List.forall_mem_cons.mp h
      rw [List.mapM_cons, hx, ih hxs]
      rfl

theorem readVector_eq {dim : ℕ} (hlen : data.length < 2 ^ 63) (h : o + 4 * dim ≤ data.length) :
    readVector data (Int64.ofNat o) dim = some (wordsOf dim (data.drop o)) := by
  apply mapM_eq_some_map
  intro i hi
  have hi : i < dim := List.mem_range.mp hi
  have hoff : Int64.ofNat o + Int64.ofNat i * 4 = Int64.ofNat (o + 4 * i) := by
    rw [Nat.mul_comm, Int64.ofNat_add, Int64.ofNat_mul]
    rfl
  rw [hoff, uint32At_eq hlen (by omega), List.drop_drop]

theorem readLoop_end (hlen : data.length < 2 ^ 63) :
    readLoop data (fuel + 1) (Int64.ofNat data.length) out = .returned out := by
  rw [readLoop, if_neg]
  rw [ofNat_lt_ofNat hlen hlen]
  omega

/-- A record that is there is read, and the offset moves past it. -/
theorem readLoop_record (hlen : data.length < 2 ^ 63)
    (h : o + 4 + 4 * (wordAt (data.drop o)).toNat ≤ data.length) :
    readLoop data (fuel + 1) (Int64.ofNat o) out =
      readLoop data fuel (Int64.ofNat (o + 4 + 4 * (wordAt (data.drop o)).toNat))
        (out ++ [wordsOf (wordAt (data.drop o)).toNat (data.drop (o + 4))]) := by
  have hfour : Int64.ofNat o + 4 = Int64.ofNat (o + 4) := (Int64.ofNat_add o 4).symm
  have hnext : Int64.ofNat (o + 4) + Int64.ofNat (wordAt (data.drop o)).toNat * 4 =
      Int64.ofNat (o + 4 + 4 * (wordAt (data.drop o)).toNat) := by
    rw [Int64.ofNat_add (o + 4), Nat.mul_comm, Int64.ofNat_mul]
    rfl
  have hhere : Int64.ofNat o < Int64.ofNat data.length := by
    rw [ofNat_lt_ofNat (by omega) hlen]
    omega
  have hheader : ¬ Int64.ofNat data.length < Int64.ofNat (o + 4) := by
    rw [ofNat_lt_ofNat hlen (by omega)]
    omega
  have hvector : ¬ Int64.ofNat data.length <
      Int64.ofNat (o + 4 + 4 * (wordAt (data.drop o)).toNat) := by
    rw [ofNat_lt_ofNat hlen (by omega)]
    omega
  rw [readLoop, if_pos hhere, hfour, if_neg hheader, uint32At_eq hlen (by omega)]
  simp only [hnext]
  rw [if_neg hvector, readVector_eq hlen (by omega)]

/-- A record that is not all there is an error. The offsets do not wrap around
before the checks are made. -/
theorem readLoop_truncated (hlen : data.length < 2 ^ 62) (ho : o < data.length)
    (h : data.length < o + 4 ∨ data.length < o + 4 + 4 * (wordAt (data.drop o)).toNat) :
    ∃ err, readLoop data (fuel + 1) (Int64.ofNat o) out = .failed err := by
  have hfour : Int64.ofNat o + 4 = Int64.ofNat (o + 4) := (Int64.ofNat_add o 4).symm
  have hhere : Int64.ofNat o < Int64.ofNat data.length := by
    rw [ofNat_lt_ofNat (by omega) (by omega)]
    exact ho
  rw [readLoop, if_pos hhere, hfour]
  by_cases hheader : data.length < o + 4
  · refine ⟨.truncatedHeader (Int64.ofNat o), ?_⟩
    rw [if_pos]
    rw [ofNat_lt_ofNat (by omega) (by omega)]
    exact hheader
  · have hword : (wordAt (data.drop o)).toNat < 2 ^ 32 := (wordAt (data.drop o)).toNat_lt
    have hpass : ¬ Int64.ofNat data.length < Int64.ofNat (o + 4) := by
      rw [ofNat_lt_ofNat (by omega) (by omega)]
      exact hheader
    have hnext : Int64.ofNat (o + 4) + Int64.ofNat (wordAt (data.drop o)).toNat * 4 =
        Int64.ofNat (o + 4 + 4 * (wordAt (data.drop o)).toNat) := by
      rw [Int64.ofNat_add (o + 4), Nat.mul_comm, Int64.ofNat_mul]
      rfl
    refine ⟨.truncatedVector (Int64.ofNat (o + 4)), ?_⟩
    rw [if_neg hpass, uint32At_eq (by omega) (by omega)]
    simp only [hnext]
    rw [if_pos]
    rw [ofNat_lt_ofNat (by omega) (by omega)]
    exact h.resolve_left hheader

/-! ### Whole files -/

/-- Records that are all there are read one after the other. -/
theorem readLoop_records {recs : List Record} (hlen : data.length < 2 ^ 63)
    (ho : o ≤ data.length) (h : data.drop o = recs.flatMap Record.bytes)
    (hfuel : recs.length < fuel) :
    readLoop data fuel (Int64.ofNat o) out = .returned (out ++ recs.map Record.vector) := by
  obtain ⟨fuel, rfl⟩ := Nat.exists_eq_succ_of_ne_zero (show fuel ≠ 0 by omega)
  induction recs generalizing o fuel out with
  | nil =>
      have hend : o = data.length := by
        have hnil : (data.drop o).length = 0 := by rw [h]; rfl
        rw [List.length_drop] at hnil
        omega
      rw [hend, readLoop_end hlen, List.map_nil, List.append_nil]
  | cons r recs ih =>
      rw [List.flatMap_cons] at h
      have hdim : (wordAt (data.drop o)).toNat = r.dim := by
        rw [h, Record.wordAt_bytes]
      have hfits : o + 4 + 4 * r.dim ≤ data.length := by
        have hlength := congrArg List.length h
        rw [List.length_drop, List.length_append, r.length_bytes] at hlength
        omega
      have hvector : wordsOf r.dim (data.drop (o + 4)) = r.vector := by
        rw [← List.drop_drop, h, Record.bytes, List.append_assoc,
          List.drop_left' (length_leBytes 4 r.dim), Record.wordsOf_payload]
      have hrest : data.drop (o + 4 + 4 * r.dim) = recs.flatMap Record.bytes := by
        rw [Nat.add_assoc, ← List.drop_drop, h, List.drop_left' r.length_bytes]
      obtain ⟨fuel, rfl⟩ := Nat.exists_eq_succ_of_ne_zero
        (show fuel ≠ 0 by rw [List.length_cons] at hfuel; omega)
      rw [readLoop_record hlen (by rw [hdim]; exact hfits), hdim, hvector,
        ih hfits hrest fuel (by rw [List.length_cons] at hfuel; omega), List.map_cons,
        List.append_assoc, List.singleton_append]

/-- Whatever the file holds, it is a concatenation of records or the reader stops
with an error. The induction is on the iterations left; each record takes four bytes
at least. -/
theorem records_or_failed (hlen : data.length < 2 ^ 62) (ho : o ≤ data.length)
    (hfuel : data.length - o < fuel) :
    (∃ recs : List Record, data.drop o = recs.flatMap Record.bytes) ∨
      ∃ err, readLoop data fuel (Int64.ofNat o) out = .failed err := by
  induction fuel generalizing o out with
  | zero => omega
  | succ fuel ih =>
      rcases Nat.eq_or_lt_of_le ho with rfl | ho
      · exact Or.inl ⟨[], by simp⟩
      · by_cases hfits : o + 4 + 4 * (wordAt (data.drop o)).toNat ≤ data.length
        · have hrecord : 4 + 4 * (wordAt (data.drop o)).toNat ≤ (data.drop o).length := by
            rw [List.length_drop]
            omega
          obtain ⟨r, hdim, hbytes⟩ := exists_record hrecord
          rw [readLoop_record (by omega) hfits]
          rcases ih hfits (by omega) with ⟨recs, hrecs⟩ | herr
          · refine Or.inl ⟨r :: recs, ?_⟩
            rw [List.flatMap_cons, hbytes, ← hrecs, hdim, Nat.add_assoc, ← List.drop_drop,
              List.take_append_drop]
          · exact Or.inr herr
        · exact Or.inr (readLoop_truncated hlen ho (Or.inr (by omega)))

theorem length_le_length_flatMap_bytes (recs : List Record) :
    recs.length ≤ (recs.flatMap Record.bytes).length := by
  induction recs with
  | nil => simp
  | cons r recs ih =>
      rw [List.flatMap_cons, List.length_append, r.length_bytes, List.length_cons]
      omega

/-- On a file that is a concatenation of records the reader returns their
vectors. -/
theorem readFvecs_records {file : File} {recs : List Record} {fuel : ℕ}
    (h : file.data = recs.flatMap Record.bytes) (hfuel : file.data.length < fuel) :
    readFvecs file fuel = .returned (recs.map Record.vector) := by
  have hrecs : recs.length < fuel := by
    have hle := length_le_length_flatMap_bytes recs
    rw [← h] at hle
    omega
  exact readLoop_records file.length_lt (Nat.zero_le _) h hrecs

theorem readFvecs_encode {file : File} {vs : List (List UInt32)} {fuel : ℕ}
    (hvs : ∀ v ∈ vs, v.length < 2 ^ 32) (h : file.data = encode vs)
    (hfuel : file.data.length < fuel) : readFvecs file fuel = .returned vs := by
  obtain ⟨recs, hbytes, hvectors⟩ := encode_eq_records hvs
  rw [readFvecs_records (h.trans hbytes) hfuel, hvectors]

/-- The reader comes to an end on every file, with an error if and only if the file
is not a concatenation of records, and otherwise with the vectors of the records. -/
theorem readFvecs_accepts_iff {file : File} (hlen : file.data.length < 2 ^ 62) {fuel : ℕ}
    (hfuel : file.data.length < fuel) :
    ((∃ err, readFvecs file fuel = .failed err) ↔
      ¬ ∃ recs : List Record, file.data = recs.flatMap Record.bytes) ∧
    (∀ recs : List Record, file.data = recs.flatMap Record.bytes →
      readFvecs file fuel = .returned (recs.map Record.vector)) ∧
    ∀ vs : List (List UInt32), (∀ v ∈ vs, v.length < 2 ^ 32) → file.data = encode vs →
      readFvecs file fuel = .returned vs := by
  refine ⟨⟨?_, ?_⟩, fun recs h => readFvecs_records h hfuel,
    fun vs hvs h => readFvecs_encode hvs h hfuel⟩
  · rintro ⟨err, herr⟩ ⟨recs, hrecs⟩
    rw [readFvecs_records hrecs hfuel] at herr
    cases herr
  · intro hnone
    rcases records_or_failed hlen (Nat.zero_le _) (by omega) with ⟨recs, hrecs⟩ | herr
    · exact absurd ⟨recs, hrecs⟩ hnone
    · exact herr

/-- A file with one vector of one component, and an empty one. -/
def smallFile : File where
  data := [1, 0, 0, 0, 0, 0, 128, 63, 0, 0, 0, 0]
  length_lt := by decide

theorem readFvecs_accepts_iff_small :
    smallFile.data.length < 2 ^ 62 ∧ smallFile.data = encode [[0x3f800000], []] ∧
      readFvecs smallFile 13 = .returned [[0x3f800000], []] :=
  ⟨by decide, by decide, (readFvecs_accepts_iff (by decide) (by decide)).2.2 [[0x3f800000], []]
    (by decide) (by decide)⟩

end RostamBench.Sift1m
