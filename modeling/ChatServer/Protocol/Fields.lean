import Mathlib.Data.List.Basic
import ChatServer.Library.Tokens
import ChatServer.Protocol.Format

/-! # Fields of a line

The fields of a line are words with a space between them. The tokenizer takes
them back one by one, and the text after the last of them as it is, and the
number conversions take a number back from its digits.
-/

namespace ChatServer

open Library

variable {s t rest : Text} {n : ℕ}

/-- A field that the tokenizer takes back. -/
structure IsWord (s : Text) : Prop where
  ne : s ≠ []
  noSpace : ' ' ∉ s

/-- A name of a client or a room, in a field of `size` bytes, that the server accepts. -/
structure AcceptedName (size : ℕ) (s : Text) : Prop extends IsWord s where
  length : s.length < size
  noNewline : '\n' ∉ s
  noNul : '\x00' ∉ s

theorem IsWord.not_space (h : IsWord s) : ∀ c ∈ s, decide (c = ' ') = false :=
  fun _ hc => decide_eq_false fun heq => h.noSpace (heq ▸ hc)

theorem IsWord.dropWhile (h : IsWord s) (rest : Text) :
    (s ++ rest).dropWhile (· = ' ') = s ++ rest := by
  obtain ⟨c, s, rfl⟩ := List.exists_cons_of_ne_nil h.ne
  have hc := h.not_space c List.mem_cons_self
  simp only [List.cons_append, List.dropWhile_cons, hc]
  rfl

theorem strtokSpace_append (h : IsWord s) (rest : Text) :
    strtokSpace (s ++ rest) =
      (some (s ++ rest.takeWhile (· ≠ ' ')), (rest.dropWhile (· ≠ ' ')).tail) := by
  have hword : ∀ c ∈ s, (!decide (c = ' ')) = true := fun c hc => by simp [h.not_space c hc]
  have hne : s ++ rest ≠ [] := by simp [h.ne]
  rw [strtokSpace, strtok, h.dropWhile]
  split
  · rename_i hnil
    exact absurd hnil hne
  · rw [List.takeWhile_append_of_pos hword, List.dropWhile_append_of_pos hword]
    simp

theorem strtokSpace_word (h : IsWord s) (rest : Text) :
    strtokSpace (s ++ ' ' :: rest) = (some s, rest) := by
  rw [strtokSpace_append h]
  simp

theorem strtokSpace_last (h : IsWord s) : strtokSpace s = (some s, []) := by
  have hlast := strtokSpace_append h []
  rw [List.append_nil] at hlast
  rw [hlast]
  simp

@[simp] theorem strtokSpace_nil : strtokSpace [] = (none, []) := rfl

theorem lineOf_cons_cons (first second : Text) (words : List Text) :
    lineOf (first :: second :: words) = first ++ ' ' :: lineOf (second :: words) := by
  simp [lineOf, List.intercalate]

theorem lineOf_singleton (word : Text) : lineOf [word] = word ++ ['\n'] := by
  simp [lineOf, List.intercalate]

theorem length_lineOf (word : Text) (words : List Text) :
    (lineOf (word :: words)).length = ((word :: words).map fun t => t.length + 1).sum := by
  induction words generalizing word with
  | nil => simp [lineOf, List.intercalate]
  | cons word' words ih =>
    have htail := ih word'
    simp only [lineOf, List.length_append, List.length_singleton, List.map_cons,
      List.sum_cons, List.intercalate_cons_cons] at htail ⊢
    omega

theorem snprintf_eq_self_iff {size : ℕ} (h : 0 < size) : snprintf size s = s ↔ s.length < size := by
  constructor
  · intro heq
    have hlen := congrArg List.length heq
    rw [snprintf, List.length_take] at hlen
    omega
  · exact fun hlt => List.take_of_length_le (by omega)

/-- A number of the C type `long long`. -/
def Int64 (n : ℤ) : Prop := -2 ^ 63 ≤ n ∧ n < 2 ^ 63

theorem length_decimal_of_natAbs {n : ℤ} {k : ℕ} (hk : 0 < k) (h : n.natAbs < 10 ^ k) :
    (decimal n).length ≤ k + 1 := by
  have hdigits : (Nat.toDigits 10 n.natAbs).length ≤ k :=
    (Nat.length_toDigits_le_iff (by decide) hk).mpr h
  unfold decimal
  split_ifs
  · simpa using hdigits
  · omega

theorem length_decimal_of_int64 {n : ℤ} (h : Int64 n) : (decimal n).length ≤ 20 := by
  obtain ⟨hlo, hhi⟩ := h
  exact length_decimal_of_natAbs (k := 19) (by decide) (by omega)

theorem decimal_natCast (n : ℕ) : decimal (n : ℤ) = Nat.toDigits 10 n := by
  rw [decimal, if_neg (by omega), Int.natAbs_natCast]

theorem isDigit_of_mem_decimal {c : Char} (h : c ∈ decimal (n : ℤ)) : c.isDigit := by
  rw [decimal_natCast] at h
  exact Nat.isDigit_of_mem_toDigits (by decide) (by decide) h

theorem decimal_ne_nil (n : ℕ) : decimal (n : ℤ) ≠ [] := by
  rw [decimal_natCast]
  exact Nat.toDigits_ne_nil

theorem isWord_decimal (n : ℕ) : IsWord (decimal (n : ℤ)) where
  ne := decimal_ne_nil n
  noSpace h := absurd (isDigit_of_mem_decimal h) (by decide)

theorem decimal_cons (n : ℕ) : ∃ c s, decimal (n : ℤ) = c :: s ∧ isSpace c = false ∧
    c ≠ '-' ∧ c ≠ '+' := by
  obtain ⟨c, s, hs⟩ := List.exists_cons_of_ne_nil (decimal_ne_nil n)
  have hc : c.isDigit := isDigit_of_mem_decimal (hs ▸ List.mem_cons_self)
  have hne : ∀ d : Char, d.isDigit = false → c ≠ d := by
    rintro d hd rfl
    rw [hc] at hd
    cases hd
  refine ⟨c, s, hs, ?_, hne '-' (by decide), hne '+' (by decide)⟩
  simp [isSpace, hne ' ' (by decide), hne '\t' (by decide), hne '\n' (by decide),
    hne '\r' (by decide), hne '\x0b' (by decide), hne '\x0c' (by decide)]

theorem leadingDigits_decimal (n : ℕ) : leadingDigits (decimal (n : ℤ)) = n := by
  have hall : (decimal (n : ℤ)).takeWhile Char.isDigit = decimal n :=
    List.takeWhile_eq_self_iff.mpr fun c hc => isDigit_of_mem_decimal hc
  rw [leadingDigits, hall, decimal_natCast]
  exact Nat.ofDigitChars_ten_toDigits

theorem decimal_inj {m n : ℕ} (h : decimal (m : ℤ) = decimal n) : m = n := by
  have hdigits := congrArg leadingDigits h
  rwa [leadingDigits_decimal, leadingDigits_decimal] at hdigits

theorem signedDigits_decimal (n : ℕ) : signedDigits (decimal (n : ℤ)) = n := by
  obtain ⟨c, s, hs, hspace, hminus, hplus⟩ := decimal_cons n
  have hdigits := leadingDigits_decimal n
  rw [signedDigits, hs, List.dropWhile_cons_of_neg (by simp [hspace]), ← hs]
  split
  · rename_i heq
    exact absurd (List.cons.inj (hs.symm.trans heq)).1 hminus
  · rename_i heq
    exact absurd (List.cons.inj (hs.symm.trans heq)).1 hplus
  · rw [hdigits]

theorem atoi_decimal (h : n < 2 ^ 31) : atoi (decimal (n : ℤ)) = n := by
  have hsat : atoll (decimal (n : ℤ)) = n := by
    rw [atoll, signedDigits_decimal]
    omega
  rw [atoi, hsat]
  exact Int.bmod_eq_of_le (by omega) (by omega)

end ChatServer
