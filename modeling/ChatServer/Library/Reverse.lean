import Mathlib.Data.List.Basic
import Mathlib.Data.Int.Basic
import Mathlib.Tactic.Common

/-! # Loops over an array

Two loops over the entries of an array: the running minimum of a key, and the
reversal in place that swaps the entries of the front half with those of the
back half.
-/

namespace ChatServer.Library

variable {α : Type*} {l : List α} {f : α → ℤ}

/-- `if (count == 0 || key < smallest) smallest = key; count++;` -/
def minStep (f : α → ℤ) (s : ℕ × ℤ) (x : α) : ℕ × ℤ :=
  (s.1 + 1, if s.1 = 0 ∨ f x < s.2 then f x else s.2)

/-- The smallest key after the loop, zero if there is no entry. -/
def runningMin (f : α → ℤ) (l : List α) : ℤ := (l.foldl (minStep f) (0, 0)).2

theorem runningMin_of_descending (h : l.Pairwise fun x y => f y < f x) :
    runningMin f l = (l.getLast?.map f).getD 0 := by
  have hlast : ∀ (l : List α) (n : ℕ) (s : ℤ), (l.Pairwise fun x y => f y < f x) →
      (∀ x ∈ l, f x < s) → (l.foldl (minStep f) (n + 1, s)).2 = (l.getLast?.map f).getD s := by
    intro l
    induction l with
    | nil => intro n s _ _; rfl
    | cons x l ih =>
      intro n s hl hs
      obtain ⟨hx, hl⟩ := List.pairwise_cons.mp hl
      rw [List.foldl_cons, minStep, if_pos (.inr (hs x List.mem_cons_self)), ih _ _ hl hx]
      cases l with
      | nil => rfl
      | cons y l => rw [List.getLast?_cons_cons, List.getLast?_eq_some_getLast (by simp)]; rfl
  cases l with
  | nil => rfl
  | cons x l =>
    obtain ⟨hx, hl⟩ := List.pairwise_cons.mp h
    rw [runningMin, List.foldl_cons, minStep, if_pos (.inl rfl), hlast l 0 _ hl hx]
    cases l with
    | nil => rfl
    | cons y l => rw [List.getLast?_cons_cons, List.getLast?_eq_some_getLast (by simp)]; rfl

/-- Swap the entry at an index with the one at the same distance from the end. -/
def swapEnds (l : List α) (i : ℕ) : List α :=
  match l[i]?, l[l.length - 1 - i]? with
  | some x, some y => (l.set i y).set (l.length - 1 - i) x
  | _, _ => l

/-- `for (i = 0; i < count / 2; i++)` swap the entries `i` and `count - 1 - i`. -/
def reverseInPlace (l : List α) : List α := (List.range (l.length / 2)).foldl swapEnds l

@[simp] theorem length_swapEnds (l : List α) (i : ℕ) : (swapEnds l i).length = l.length := by
  unfold swapEnds
  split <;> simp

/-- After `k` swaps the first `k` entries and the last `k` are those of the reversed list. -/
theorem foldl_swapEnds (l : List α) {k : ℕ} (hk : k ≤ l.length / 2) :
    ((List.range k).foldl swapEnds l).length = l.length ∧
      ∀ j < l.length, ((List.range k).foldl swapEnds l)[j]? =
        if j < k ∨ l.length - k ≤ j then l[l.length - 1 - j]? else l[j]? := by
  induction k with
  | zero =>
    refine ⟨rfl, fun j hj => ?_⟩
    rw [if_neg (by omega)]
    rfl
  | succ k ih =>
    obtain ⟨hlen, hget⟩ := ih (by omega)
    rw [List.range_succ, List.foldl_append, List.foldl_cons, List.foldl_nil]
    generalize (List.range k).foldl swapEnds l = g at hlen hget
    refine ⟨by rw [length_swapEnds, hlen], fun j hj => ?_⟩
    have hi := hget k (by omega)
    have hi' := hget (l.length - 1 - k) (by omega)
    rw [if_neg (by omega)] at hi hi'
    rw [List.getElem?_eq_getElem (l := l) (by omega)] at hi hi'
    simp only [swapEnds, hlen, hi, hi', List.getElem?_set, List.length_set]
    by_cases hjk : l.length - 1 - k = j
    · subst hjk
      rw [if_pos rfl, if_pos (by omega), if_pos (by omega), List.getElem?_eq_getElem (by omega)]
      congr 2
      omega
    · rw [if_neg hjk]
      by_cases hjk' : k = j
      · subst hjk'
        rw [if_pos rfl, if_pos (by omega), if_pos (by omega), List.getElem?_eq_getElem (by omega)]
      · rw [if_neg hjk', hget j hj]
        congr 1
        rw [eq_iff_iff]
        omega

theorem reverseInPlace_eq (l : List α) : reverseInPlace l = l.reverse := by
  obtain ⟨hlen, hget⟩ := foldl_swapEnds l le_rfl
  refine List.ext_getElem? fun j => ?_
  by_cases hj : j < l.length
  · rw [reverseInPlace, hget j hj, List.getElem?_reverse hj]
    split_ifs with h
    · rfl
    · congr 1
      omega
  · rw [List.getElem?_eq_none (by rw [reverseInPlace, hlen]; omega),
      List.getElem?_eq_none (by rw [List.length_reverse]; omega)]

end ChatServer.Library
