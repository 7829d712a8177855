import Mathlib.Data.List.Basic
import Mathlib.Data.List.Infix

/-!
A buffered writer over a connection that may fail at any byte.

How much of what it holds a `Write` passes on is the implementation's choice,
and how much the connection takes before it fails is the environment's; both
are left open here as a `Transfer`. What is fixed is the documented contract:
bytes leave in the order they were written, a successful `Flush` leaves nothing
behind, nothing passes a connection that was closed locally, and the first
error is returned by every later call, which passes nothing on.
-/

namespace BufWriter

/-- The bytes held back and whether an error has been seen. -/
structure Writer (α : Type*) where
  buf : List α
  err : Bool
  deriving DecidableEq

/-- What one call hands over: the first `sent` of the bytes it holds, and
whether the call succeeds. -/
structure Transfer where
  sent : ℕ
  ok : Bool
  deriving DecidableEq

variable {α : Type*}

/-- The transfers a `Write` of `p` may make. -/
def Writer.CanWrite (w : Writer α) (closed : Bool) (p : List α) (t : Transfer) : Prop :=
  w.err = false → t.sent ≤ (w.buf ++ p).length ∧ (closed = true → t.sent = 0)

/-- The transfers a `Flush` may make. -/
def Writer.CanFlush (w : Writer α) (closed : Bool) (t : Transfer) : Prop :=
  w.CanWrite closed [] t ∧ (w.err = false → t.ok = true → t.sent = w.buf.length)

instance (w : Writer α) (closed : Bool) (p : List α) (t : Transfer) :
    Decidable (w.CanWrite closed p t) :=
  inferInstanceAs (Decidable (_ → _))

instance (w : Writer α) (closed : Bool) (t : Transfer) :
    Decidable (w.CanFlush closed t) :=
  inferInstanceAs (Decidable (_ ∧ _))

/-- The writer after `Write p`; a `Flush` is the write of nothing. -/
def Writer.write (w : Writer α) (p : List α) (t : Transfer) : Writer α :=
  if w.err then w else { buf := (w.buf ++ p).drop t.sent, err := !t.ok }

/-- The bytes a `Write p` passes on. -/
def Writer.passed (w : Writer α) (p : List α) (t : Transfer) : List α :=
  if w.err then [] else (w.buf ++ p).take t.sent

theorem Writer.write_err (w : Writer α) (p : List α) (t : Transfer) :
    (w.write p t).err = (w.err || !t.ok) := by
  cases herr : w.err <;> simp [Writer.write, herr]

theorem Writer.passed_of_err {w : Writer α} (h : w.err = true) (p : List α)
    (t : Transfer) : w.passed p t = [] := by
  simp [Writer.passed, h]

/-- Nothing is lost or reordered while no error has been seen. -/
theorem Writer.passed_append_buf {w : Writer α} (h : w.err = false) (p : List α)
    (t : Transfer) : w.passed p t ++ (w.write p t).buf = w.buf ++ p := by
  simp [Writer.passed, Writer.write, h]

theorem Writer.passed_isPrefix {w : Writer α} (h : w.err = false) (p : List α)
    (t : Transfer) : w.passed p t <+: w.buf ++ p := by
  simpa [Writer.passed, h] using List.take_prefix _ _

/-- A locally closed connection takes nothing. -/
theorem Writer.passed_of_closed {w : Writer α} {p : List α} {t : Transfer}
    (h : w.CanWrite true p t) : w.passed p t = [] := by
  unfold Writer.passed
  split
  · rfl
  · rename_i herr
    simp [(h (by simpa using herr)).2 rfl]

/-- A flush with bytes to pass on fails on a locally closed connection. -/
theorem Writer.flush_closed {w : Writer α} {t : Transfer} (h : w.CanFlush true t)
    (hbuf : w.err = true ∨ w.buf ≠ []) : (w.write [] t).err = true := by
  rw [Writer.write_err]
  rcases hbuf with herr | hne
  · simp [herr]
  · by_cases herr : w.err = true
    · simp [herr]
    · have herr' : w.err = false := by simpa using herr
      cases hok : t.ok with
      | false => simp
      | true =>
          have hsent := (h.1 herr').2 rfl
          have hall := h.2 herr' hok
          exact absurd (List.length_eq_zero_iff.mp (hall.symm.trans hsent)) hne

end BufWriter
