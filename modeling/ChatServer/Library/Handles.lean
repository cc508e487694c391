import Mathlib.Data.Nat.Notation
import Mathlib.Logic.Function.Basic

/-! # Handles that are handed out again

A table says what each open handle refers to. A handle that was read out of
the table earlier still refers to what it did then, or to nothing, unless it
has been handed out again since.
-/

namespace ChatServer.Library

/-- What the open handles refer to, and the handles given out so far, in order. -/
structure Handles (κ ι : Type*) where
  holder : κ → Option ι
  given : List κ

namespace Handles

variable {κ ι : Type*} [DecidableEq κ]

def give (t : Handles κ ι) (k : κ) (i : ι) : Handles κ ι where
  holder := Function.update t.holder k (some i)
  given := t.given ++ [k]

def close (t : Handles κ ι) (k : κ) : Handles κ ι :=
  { t with holder := Function.update t.holder k none }

omit [DecidableEq κ] in
/-- The handles given out since some of them were. -/
def since (t : Handles κ ι) (mark : ℕ) : List κ := t.given.drop mark

/-- Some handles referred to known holders when `mark` handles had been given out. -/
structure Recalls (t : Handles κ ι) (mark : ℕ) (known : ι → Prop) (ks : List κ) : Prop where
  mark_le : mark ≤ t.given.length
  same : ∀ k ∈ ks, k ∉ t.since mark → ∀ i, t.holder k = some i → known i
  other : ∀ k ∈ t.since mark, ∀ i, t.holder k = some i → ¬ known i

variable {t : Handles κ ι} {mark : ℕ} {known : ι → Prop} {ks : List κ} {k : κ} {i : ι}

omit [DecidableEq κ] in
theorem recalls_now (h : ∀ k ∈ ks, ∀ i, t.holder k = some i → known i) :
    t.Recalls t.given.length known ks where
  mark_le := Nat.le_refl _
  same := fun k hk _ => h k hk
  other := fun k hk => by simp [since] at hk

namespace Recalls

omit [DecidableEq κ] in
/-- What a recalled handle refers to is known exactly if the handle was not given out since. -/
theorem known_iff (h : t.Recalls mark known ks) (hk : k ∈ ks) (hi : t.holder k = some i) :
    known i ↔ k ∉ t.since mark :=
  ⟨fun hknown hsince => h.other k hsince i hi hknown, fun hsince => h.same k hk hsince i hi⟩

omit [DecidableEq κ] in
theorem mono {ks' : List κ} (h : t.Recalls mark known ks) (hks : ks' ⊆ ks) :
    t.Recalls mark known ks' where
  mark_le := h.mark_le
  same := fun k hk => h.same k (hks hk)
  other := h.other

theorem close (h : t.Recalls mark known ks) (k' : κ) : (t.close k').Recalls mark known ks where
  mark_le := h.mark_le
  same := by
    intro k hk hsince i hi
    rcases eq_or_ne k k' with rfl | hne
    · simp [Handles.close] at hi
    · exact h.same k hk hsince i (by simpa [Handles.close, hne] using hi)
  other := by
    intro k hsince i hi
    rcases eq_or_ne k k' with rfl | hne
    · simp [Handles.close] at hi
    · exact h.other k hsince i (by simpa [Handles.close, hne] using hi)

theorem give (h : t.Recalls mark known ks) (k' : κ) {i' : ι} (hi' : ¬ known i') :
    (t.give k' i').Recalls mark known ks := by
  have hsince : (t.give k' i').since mark = t.since mark ++ [k'] := by
    simp [since, Handles.give, List.drop_append_of_le_length h.mark_le]
  refine ⟨?_, ?_, ?_⟩
  · simpa [Handles.give] using Nat.le_succ_of_le h.mark_le
  · intro k hk hout i hi
    rw [hsince, List.mem_append, List.mem_singleton, not_or] at hout
    exact h.same k hk hout.1 i (by simpa [Handles.give, hout.2] using hi)
  · intro k hin i hi
    rcases eq_or_ne k k' with rfl | hne
    · obtain rfl : i' = i := by simpa [Handles.give] using hi
      exact hi'
    · rw [hsince, List.mem_append, List.mem_singleton] at hin
      exact h.other k (hin.resolve_right hne) i (by simpa [Handles.give, hne] using hi)

end Recalls

end Handles

end ChatServer.Library
