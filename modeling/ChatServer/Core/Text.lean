import Mathlib.Algebra.Order.Ring.Int

/-! # C strings

A NUL-terminated byte string is the list of its bytes before the NUL, each
byte written as a character. Bounded copies and `snprintf` truncate, and the
number conversions follow the C library: decimal digits without leading zeros,
saturation at 64 bits in `atoll` and truncation to 32 bits in `atoi`.
-/

namespace ChatServer

/-- The bytes of a C string, without the terminating NUL. -/
abbrev Text := List Char

/-- The buffer after `snprintf(buf, size, ...)` of a formatted text. -/
def snprintf (size : ℕ) (s : Text) : Text := s.take (size - 1)

/-- A field of `size` bytes after `strncpy` and termination of its last byte. -/
def strncpy (size : ℕ) (s : Text) : Text := s.take (size - 1)

theorem strncpy_eq_self {size : ℕ} {s : Text} (h : s.length < size) : strncpy size s = s :=
  List.take_of_length_le (by omega)

@[simp] theorem strncpy_strncpy (size : ℕ) (s : Text) :
    strncpy size (strncpy size s) = strncpy size s := by
  simp [strncpy, List.take_take]

/-- The conversion `%lld` (and `%d`). -/
def decimal (n : ℤ) : Text :=
  if n < 0 then '-' :: Nat.toDigits 10 n.natAbs else Nat.toDigits 10 n.natAbs

def isSpace (c : Char) : Bool :=
  c = ' ' || c = '\t' || c = '\n' || c = '\r' || c = '\x0b' || c = '\x0c'

/-- The value of the leading decimal digits. -/
def leadingDigits (s : Text) : ℕ :=
  (s.takeWhile Char.isDigit).foldl (fun n c => 10 * n + (c.toNat - '0'.toNat)) 0

/-- Skip white space, read an optional sign and the digits after it. -/
def signedDigits (s : Text) : ℤ :=
  match s.dropWhile isSpace with
  | '-' :: t => -(leadingDigits t : ℤ)
  | '+' :: t => leadingDigits t
  | t => leadingDigits t

/-- `atoll`, which saturates at the bounds of a 64-bit integer. -/
def atoll (s : Text) : ℤ := max (-(2 ^ 63)) (min (2 ^ 63 - 1) (signedDigits s))

/-- `atoi`, the low 32 bits of the 64-bit conversion. -/
def atoi (s : Text) : ℤ := Int.bmod (atoll s) (2 ^ 32)

/--
One call of `strtok`: skip leading delimiters, return the token before the next
one (none at the end of the string), and the rest after that delimiter.
-/
def strtok (delim : Char → Bool) (s : Text) : Option Text × Text :=
  match s.dropWhile delim with
  | [] => (none, [])
  | t => (some (t.takeWhile fun c => !delim c), (t.dropWhile fun c => !delim c).tail)

/-- `strtok(NULL, " ")`. -/
def strtokSpace (s : Text) : Option Text × Text := strtok (· = ' ') s

/-- `strtok(NULL, "")`, the whole rest. -/
def strtokRest (s : Text) : Option Text := (strtok (fun _ => false) s).1

end ChatServer
