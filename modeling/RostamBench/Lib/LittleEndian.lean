import RostamBench.Lib.BigEndian
import Mathlib.Data.List.Basic

/-!
Little-endian byte strings, and arrays of 32-bit words stored in them.

The little-endian form of a number is its big-endian form read backwards, so the
lemmas come from `Lib.BigEndian`. `wordsOf n bs` reads `n` words off the front of
`bs`; it is inverse to writing words one after the other.
-/

namespace LittleEndian

open BigEndian

/-- The `n`-byte little-endian form of `v`. -/
def leBytes (n v : ℕ) : Bytes := (bytesOf n v).reverse

/-- The number a byte string denotes, least significant byte first. -/
def leNat (bs : Bytes) : ℕ := natOf bs.reverse

@[simp] theorem length_leBytes (n v : ℕ) : (leBytes n v).length = n := by
  simp [leBytes]

theorem leNat_leBytes_of_lt {n v : ℕ} (h : v < 256 ^ n) : leNat (leBytes n v) = v := by
  rw [leNat, leBytes, List.reverse_reverse, natOf_bytesOf_of_lt h]

theorem leBytes_leNat {n : ℕ} {bs : Bytes} (h : bs.length = n) : leBytes n (leNat bs) = bs := by
  rw [leBytes, leNat, bytesOf_natOf (by rw [List.length_reverse, h]), List.reverse_reverse]

theorem leNat_lt (bs : Bytes) : leNat bs < 256 ^ bs.length := by
  simpa [leNat] using natOf_lt bs.reverse

/-! ### Words -/

def wordBytes (w : UInt32) : Bytes := leBytes 4 w.toNat

/-- The word in the first four bytes. -/
def wordAt (bs : Bytes) : UInt32 := UInt32.ofNat (leNat (bs.take 4))

@[simp] theorem length_wordBytes (w : UInt32) : (wordBytes w).length = 4 := length_leBytes 4 _

@[simp] theorem wordAt_wordBytes_append (w : UInt32) (rest : Bytes) :
    wordAt (wordBytes w ++ rest) = w := by
  rw [wordAt, List.take_left' (length_wordBytes w), wordBytes,
    leNat_leBytes_of_lt (by simpa using w.toNat_lt), UInt32.ofNat_toNat]

theorem wordBytes_wordAt {bs : Bytes} (h : 4 ≤ bs.length) : wordBytes (wordAt bs) = bs.take 4 := by
  have hlen : (bs.take 4).length = 4 := List.length_take_of_le h
  have hlt : leNat (bs.take 4) < 2 ^ 32 := by
    have hbound := leNat_lt (bs.take 4)
    rw [hlen] at hbound
    simpa using hbound
  rw [wordBytes, wordAt, UInt32.toNat_ofNat_of_lt' hlt, leBytes_leNat hlen]

/-- The bytes of an array of words. -/
def bytesOfWords (ws : List UInt32) : Bytes := ws.flatMap wordBytes

@[simp] theorem bytesOfWords_nil : bytesOfWords [] = [] := rfl

@[simp] theorem bytesOfWords_cons (w : UInt32) (ws : List UInt32) :
    bytesOfWords (w :: ws) = wordBytes w ++ bytesOfWords ws :=
  List.flatMap_cons

theorem bytesOfWords_append (ws ws' : List UInt32) :
    bytesOfWords (ws ++ ws') = bytesOfWords ws ++ bytesOfWords ws' :=
  List.flatMap_append

@[simp] theorem length_bytesOfWords (ws : List UInt32) :
    (bytesOfWords ws).length = 4 * ws.length := by
  induction ws with
  | nil => rfl
  | cons w ws ih =>
      rw [bytesOfWords_cons, List.length_append, length_wordBytes, ih, List.length_cons]
      omega

/-- The first `n` words. -/
def wordsOf (n : ℕ) (bs : Bytes) : List UInt32 :=
  (List.range n).map fun i => wordAt (bs.drop (4 * i))

@[simp] theorem length_wordsOf (n : ℕ) (bs : Bytes) : (wordsOf n bs).length = n := by
  simp [wordsOf]

theorem wordsOf_succ (n : ℕ) (bs : Bytes) :
    wordsOf (n + 1) bs = wordAt bs :: wordsOf n (bs.drop 4) := by
  have hdrop (i : ℕ) : bs.drop (4 * (i + 1)) = (bs.drop 4).drop (4 * i) := by
    rw [List.drop_drop]
    congr 1
    omega
  rw [wordsOf, List.range_succ_eq_map, List.map_cons, List.map_map]
  simp only [Function.comp_def, Nat.succ_eq_add_one, hdrop]
  rfl

theorem wordsOf_bytesOfWords (ws : List UInt32) (rest : Bytes) :
    wordsOf ws.length (bytesOfWords ws ++ rest) = ws := by
  induction ws with
  | nil => rfl
  | cons w ws ih =>
      rw [bytesOfWords_cons, List.append_assoc, List.length_cons, wordsOf_succ,
        wordAt_wordBytes_append, List.drop_left' (length_wordBytes w), ih]

theorem bytesOfWords_wordsOf {n : ℕ} {bs : Bytes} (h : 4 * n ≤ bs.length) :
    bytesOfWords (wordsOf n bs) = bs.take (4 * n) := by
  induction n generalizing bs with
  | zero => rfl
  | succ n ih =>
      have hrest : 4 * n ≤ (bs.drop 4).length := by
        rw [List.length_drop]
        omega
      rw [wordsOf_succ, bytesOfWords_cons, wordBytes_wordAt (by omega), ih hrest, Nat.mul_succ,
        Nat.add_comm, List.take_add]

/-! ### Rows -/

/-- Rows of `k` items each, `n` of them, by index. -/
def rows {α : Type*} (k n : ℕ) (xs : List α) : List (List α) :=
  (List.range n).map fun i => (xs.drop (i * k)).take k

/-- Rows put one after the other are found again at the multiples of their
length. -/
theorem rows_flatten {α : Type*} {k : ℕ} {xss : List (List α)} (h : ∀ xs ∈ xss, xs.length = k) :
    rows k xss.length xss.flatten = xss := by
  induction xss with
  | nil => rfl
  | cons xs xss ih =>
      obtain ⟨hxs, hrest⟩ := List.forall_mem_cons.mp h
      have hdrop (i : ℕ) : (xs ++ xss.flatten).drop ((i + 1) * k) = xss.flatten.drop (i * k) := by
        rw [Nat.succ_mul, Nat.add_comm, ← List.drop_drop, List.drop_left' hxs]
      rw [rows, List.length_cons, List.range_succ_eq_map, List.map_cons, List.map_map]
      simp only [Function.comp_def, Nat.succ_eq_add_one, List.flatten_cons, hdrop]
      rw [Nat.zero_mul, List.drop_zero, List.take_left' hxs]
      exact congrArg (xs :: ·) (ih hrest)

end LittleEndian
