import Mathlib.Algebra.Order.Ring.Int
import Mathlib.Data.Nat.Notation

/-! # Checked arithmetic of C

Computations on `int` and indices into arrays, which stop where C leaves the
behaviour undefined. On natural numbers that fit, they are those of `ℕ`.
-/

namespace ChatServer.Library

/-- What C leaves undefined. -/
inductive Fault where
  | outOfRange | overflow | zeroDivisor | nullPointer
  deriving DecidableEq, Repr

namespace Checked

/-- The sum of two `int`s. -/
def add (a b : ℤ) : Except Fault ℤ :=
  if -(2 ^ 31) ≤ a + b ∧ a + b < 2 ^ 31 then .ok (a + b) else .error .overflow

/-- The remainder of two `int`s, which has the sign of the dividend. -/
def rem (a b : ℤ) : Except Fault ℤ :=
  if b = 0 then .error .zeroDivisor
  else if a = -(2 ^ 31) ∧ b = -1 then .error .overflow
  else .ok (a.tmod b)

/-- An index into an array of `n` elements. -/
def index (i n : ℤ) : Except Fault ℕ :=
  if 0 ≤ i ∧ i < n then .ok i.toNat else .error .outOfRange

variable {α β : Type} {a b i n : ℕ}

/-- Read an element of an array. -/
def readAt (xs : List α) (i : ℕ) : Except Fault α :=
  if h : i < xs.length then .ok xs[i] else .error .outOfRange

/-- Write an element of an array. -/
def writeAt (xs : List α) (i : ℕ) (x : α) : Except Fault (List α) :=
  if i < xs.length then .ok (xs.set i x) else .error .outOfRange

theorem ok_bind (x : α) (f : α → Except Fault β) : (Except.ok x >>= f) = f x := rfl

theorem error_bind (e : Fault) (f : α → Except Fault β) :
    (Except.error e >>= f) = .error e := rfl

theorem add_natCast (h : a + b < 2 ^ 31) : add a b = .ok ((a + b : ℕ) : ℤ) := by
  rw [add, if_pos (by omega), Nat.cast_add]

theorem rem_natCast (h : 0 < b) : rem a b = .ok ((a % b : ℕ) : ℤ) := by
  rw [rem, if_neg (by omega), if_neg (by omega), Int.ofNat_tmod]

theorem index_natCast (h : i < n) : index i n = .ok i := by
  rw [index, if_pos (by omega), Int.toNat_natCast]

theorem readAt_append (xs ys : List α) (y : α) : readAt (xs ++ y :: ys) xs.length = .ok y := by
  rw [readAt, dif_pos (by simp), List.getElem_append_right le_rfl]
  simp

theorem writeAt_append (xs ys : List α) (x y : α) :
    writeAt (xs ++ y :: ys) xs.length x = .ok ((xs ++ [x]) ++ ys) := by
  rw [writeAt, if_pos (by simp), List.set_append_right _ _ le_rfl]
  simp

theorem writeAt_length (xs : List α) (x : α) : writeAt xs xs.length x = .error .outOfRange :=
  if_neg (Nat.lt_irrefl _)

end Checked

end ChatServer.Library
