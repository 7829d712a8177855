import Mathlib.Data.List.Basic
import Mathlib.Algebra.Order.Ring.Nat
import Mathlib.Tactic.Ring
import Mathlib.Tactic.Positivity

/-!
Big-endian byte strings.

`bytesOf n v` is the `n`-byte big-endian form of `v`, taken modulo `256 ^ n` as
a store into a fixed-width field does; `natOf` reads any byte string back as a
number, and gives back every number that fits the width.

The second half is a reader: `takeBytes n` splits off exactly `n` bytes and
fails when there are fewer, so that a decoder built from it rejects a
truncated input instead of reading past its end.
-/

namespace BigEndian

abbrev Bytes := List UInt8

/-- The `n`-byte big-endian form of `v`. -/
def bytesOf : ℕ → ℕ → Bytes
  | 0, _ => []
  | n + 1, v => bytesOf n (v / 256) ++ [UInt8.ofNat (v % 256)]

/-- The number a byte string denotes, most significant byte first. -/
def natOf (bs : Bytes) : ℕ := bs.foldl (fun acc b => acc * 256 + b.toNat) 0

@[simp] theorem length_bytesOf (n v : ℕ) : (bytesOf n v).length = n := by
  induction n generalizing v with
  | zero => rfl
  | succ n ih => simp [bytesOf, ih]

theorem natOf_append_singleton (bs : Bytes) (b : UInt8) :
    natOf (bs ++ [b]) = natOf bs * 256 + b.toNat := by
  simp [natOf]

theorem natOf_bytesOf (n v : ℕ) : natOf (bytesOf n v) = v % 256 ^ n := by
  induction n generalizing v with
  | zero => simp [bytesOf, natOf, Nat.mod_one]
  | succ n ih =>
      rw [bytesOf, natOf_append_singleton, ih]
      have hbyte : (UInt8.ofNat (v % 256)).toNat = v % 256 := by
        simp
      rw [hbyte, pow_succ, Nat.mul_comm (256 ^ n), Nat.mod_mul]
      ring

theorem natOf_bytesOf_of_lt {n v : ℕ} (h : v < 256 ^ n) : natOf (bytesOf n v) = v := by
  rw [natOf_bytesOf, Nat.mod_eq_of_lt h]

theorem natOf_lt (bs : Bytes) : natOf bs < 256 ^ bs.length := by
  induction bs using List.reverseRecOn with
  | nil => simp [natOf]
  | append_singleton bs b ih =>
      rw [natOf_append_singleton, List.length_append, List.length_singleton, pow_succ]
      have hb : b.toNat < 256 := b.toNat_lt
      omega

theorem bytesOf_natOf {n : ℕ} {bs : Bytes} (h : bs.length = n) : bytesOf n (natOf bs) = bs := by
  induction bs using List.reverseRecOn generalizing n with
  | nil =>
      subst h
      rfl
  | append_singleton bs b ih =>
      obtain rfl : n = bs.length + 1 := by simpa using h.symm
      have hb : b.toNat < 256 := b.toNat_lt
      have hdiv : (natOf bs * 256 + b.toNat) / 256 = natOf bs := by omega
      have hmod : (natOf bs * 256 + b.toNat) % 256 = b.toNat := by omega
      rw [natOf_append_singleton, bytesOf, hdiv, hmod, ih rfl, UInt8.ofNat_toNat]

/-! ### Reading -/

/-- The first `n` bytes and the rest, or nothing when there are fewer. -/
def takeBytes (n : ℕ) (bs : Bytes) : Option (Bytes × Bytes) :=
  if n ≤ bs.length then some (bs.take n, bs.drop n) else none

theorem takeBytes_append {n : ℕ} {xs : Bytes} (h : xs.length = n) (ys : Bytes) :
    takeBytes n (xs ++ ys) = some (xs, ys) := by
  subst h
  simp [takeBytes]

theorem takeBytes_eq_some {n : ℕ} {bs xs ys : Bytes} (h : takeBytes n bs = some (xs, ys)) :
    bs = xs ++ ys ∧ xs.length = n := by
  rw [takeBytes] at h
  split at h
  · rename_i hn
    obtain ⟨rfl, rfl⟩ := Prod.mk.inj (Option.some.inj h)
    exact ⟨(List.take_append_drop n bs).symm, List.length_take_of_le hn⟩
  · cases h

/-- An unsigned field of `n` bytes. -/
def takeNat (n : ℕ) (bs : Bytes) : Option (ℕ × Bytes) :=
  (takeBytes n bs).map fun p => (natOf p.1, p.2)

theorem takeNat_bytesOf {n v : ℕ} (h : v < 256 ^ n) (rest : Bytes) :
    takeNat n (bytesOf n v ++ rest) = some (v, rest) := by
  rw [takeNat, takeBytes_append (length_bytesOf n v), Option.map_some,
    natOf_bytesOf_of_lt h]

theorem takeNat_eq_some {n v : ℕ} {bs rest : Bytes} (h : takeNat n bs = some (v, rest)) :
    bs = bytesOf n v ++ rest ∧ v < 256 ^ n := by
  obtain ⟨⟨xs, ys⟩, htake, heq⟩ := Option.map_eq_some_iff.mp h
  obtain ⟨rfl, rfl⟩ := Prod.mk.inj heq
  obtain ⟨rfl, hlen⟩ := takeBytes_eq_some htake
  refine ⟨by rw [bytesOf_natOf hlen], ?_⟩
  subst hlen
  exact natOf_lt xs

/-- A decoder goes on with what a field holds. -/
theorem bind_of_eq_some {α β : Type} {x : Option α} {a : α} {f : α → Option β} {b : Option β}
    (hx : x = some a) (hf : f a = b) : x >>= f = b := by
  rw [hx]
  exact hf

/-- `n` items in a row, each read by `p`. -/
def takeList {α : Type*} (p : Bytes → Option (α × Bytes)) : ℕ → Bytes → Option (List α × Bytes)
  | 0, bs => some ([], bs)
  | n + 1, bs => do
      let (x, bs) ← p bs
      let (xs, bs) ← takeList p n bs
      some (x :: xs, bs)

theorem takeList_flatMap {α β : Type*} {p : Bytes → Option (β × Bytes)} {f : α → Bytes}
    {g : α → β} (xs : List α) (h : ∀ x ∈ xs, ∀ rest, p (f x ++ rest) = some (g x, rest))
    (rest : Bytes) : takeList p xs.length (xs.flatMap f ++ rest) = some (xs.map g, rest) := by
  induction xs with
  | nil => rfl
  | cons x xs ih =>
      have ih := ih fun y hy => h y (by simp [hy])
      rw [List.flatMap_cons, List.append_assoc, List.length_cons, takeList, h x (by simp)]
      simp [ih]

end BigEndian
