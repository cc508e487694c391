import Mathlib.Data.List.Basic
import Mathlib.Logic.Function.Basic
import Mathlib.Tactic.Common

/-! # Arrays of slots

An array of fixed capacity keeps its elements in its first slots, in the order
in which they were inserted, and the slots behind them are empty. A removal
moves the later elements up by one and empties the last slot. Read up to its
count such an array is a list.
-/

namespace ChatServer.Library

structure SlotArray (α : Type*) where
  capacity : ℕ
  count : ℕ
  slots : ℕ → Option α

namespace SlotArray

variable {α : Type*} {a : SlotArray α} {l : List α} {i j first last : ℕ}

def empty (α : Type*) (capacity : ℕ) : SlotArray α := ⟨capacity, 0, fun _ => none⟩

/-- The first of the counted slots whose element meets a condition. -/
def scan (a : SlotArray α) (p : α → Bool) : Option ℕ :=
  (List.range a.count).find? fun i => (a.slots i).any p

def push (a : SlotArray α) (x : α) : SlotArray α :=
  { a with count := a.count + 1, slots := Function.update a.slots a.count (some x) }

/-- The loop that moves each slot from `first` to `last - 1` the content of the next one. -/
def shift (slots : ℕ → Option α) (first last : ℕ) : ℕ → Option α :=
  (List.range' first (last - first)).foldl (fun s i => Function.update s i (s (i + 1))) slots

def remove (a : SlotArray α) (i : ℕ) : SlotArray α :=
  let count := a.count - 1
  let slots := if i ≠ count then shift a.slots i count else a.slots
  { a with count, slots := Function.update slots count none }

/-- The array is a list: its first slots have the elements, and the others nothing. -/
structure Holds (a : SlotArray α) (l : List α) : Prop where
  count : a.count = l.length
  fits : l.length ≤ a.capacity
  slots : ∀ i, a.slots i = l[i]?

theorem holds_empty (capacity : ℕ) : (empty α capacity).Holds [] :=
  ⟨rfl, Nat.zero_le _, fun _ => rfl⟩

theorem Holds.scan (h : a.Holds l) (p : α → Bool) : a.scan p = l.findIdx? p := by
  ext i
  simp only [SlotArray.scan, h.count, h.slots, List.find?_range_eq_some, Option.any_eq_true,
    Option.any_eq_false, List.findIdx?_eq_some_iff_getElem, List.mem_range, Bool.not_eq_true',
    List.getElem?_eq_some_iff]
  constructor
  · rintro ⟨⟨x, ⟨hi, rfl⟩, hx⟩, -, hfirst⟩
    exact ⟨hi, hx, fun j hj => by simpa using hfirst j hj _ ⟨Nat.lt_trans hj hi, rfl⟩⟩
  · rintro ⟨hi, hx, hfirst⟩
    refine ⟨⟨l[i], ⟨hi, rfl⟩, hx⟩, hi, fun j hj y hy => ?_⟩
    obtain ⟨hj', rfl⟩ := hy
    simpa using hfirst j hj

theorem Holds.slots_scan (h : a.Holds l) (p : α → Bool) :
    (a.scan p).bind a.slots = l.find? p := by
  rw [h.scan, List.find?_eq_bind_findIdx?_getElem?]
  exact congrArg _ (funext h.slots)

theorem Holds.push (h : a.Holds l) (hroom : a.count < a.capacity) (x : α) :
    (a.push x).Holds (l ++ [x]) := by
  refine ⟨?_, ?_, fun i => ?_⟩
  · rw [SlotArray.push, h.count, List.length_append, List.length_singleton]
  · rw [h.count] at hroom
    rw [List.length_append, List.length_singleton]
    exact hroom
  · simp only [SlotArray.push, h.count]
    rcases Nat.lt_trichotomy i l.length with hi | rfl | hi
    · rw [Function.update_of_ne (Nat.ne_of_lt hi), h.slots, List.getElem?_append_left hi]
    · simp
    · rw [Function.update_of_ne (Nat.ne_of_gt hi), h.slots,
        List.getElem?_eq_none (Nat.le_of_lt hi),
        List.getElem?_eq_none (by simpa using Nat.succ_le_of_lt hi)]

theorem shift_apply (slots : ℕ → Option α) (h : first ≤ last) :
    shift slots first last j = if first ≤ j ∧ j < last then slots (j + 1) else slots j := by
  obtain ⟨n, rfl⟩ := Nat.exists_eq_add_of_le h
  clear h
  induction n generalizing first slots with
  | zero =>
    have hnone : ¬ (first ≤ j ∧ j < first + 0) := by omega
    rw [if_neg hnone]
    simp [shift]
  | succ n ih =>
    -- The first write is not seen by the later ones, which read further up.
    have hstep : shift slots first (first + (n + 1)) =
        shift (Function.update slots first (slots (first + 1))) (first + 1) (first + 1 + n) := by
      simp [shift, List.range'_succ]
    rw [hstep, ih]
    grind [Function.update_apply]

theorem Holds.remove (h : a.Holds l) (hi : i < l.length) : (a.remove i).Holds (l.eraseIdx i) := by
  have hcount : a.count - 1 = l.length - 1 := by rw [h.count]
  refine ⟨?_, ?_, fun j => ?_⟩
  · rw [SlotArray.remove, List.length_eraseIdx_of_lt hi, hcount]
  · exact Nat.le_trans (List.length_eraseIdx_le l i) h.fits
  · have hshift : (if i ≠ l.length - 1 then shift a.slots i (l.length - 1) else a.slots) =
        shift a.slots i (l.length - 1) := by
      split_ifs with hlast
      · rfl
      · simp only [ne_eq, not_not] at hlast
        simp [shift, hlast]
    simp only [SlotArray.remove, hcount, hshift, Function.update_apply, List.getElem?_eraseIdx]
    rw [shift_apply _ (by omega)]
    grind [h.slots j, h.slots (j + 1)]

section Erase

variable [DecidableEq α] {x : α}

theorem Holds.scan_eq_none_iff (h : a.Holds l) : a.scan (· = x) = none ↔ x ∉ l := by
  rw [h.scan, List.findIdx?_eq_none_iff]
  grind

/-- An element that is found and removed is gone from the list at its first place. -/
theorem Holds.remove_scan (h : a.Holds l) (hi : a.scan (· = x) = some i) :
    x ∈ l ∧ (a.remove i).Holds (l.erase x) := by
  rw [h.scan] at hi
  obtain ⟨hlt, hx, -⟩ := List.findIdx?_eq_some_iff_getElem.mp hi
  have hidx : l.idxOf? x = some i := by
    rw [← hi, List.idxOf?]
    exact congrArg (l.findIdx? ·) (funext fun y => by simp [Bool.beq_eq_decide_eq])
  refine ⟨of_decide_eq_true hx ▸ List.getElem_mem hlt, ?_⟩
  rw [List.erase_eq_eraseIdx, hidx]
  exact h.remove hlt

end Erase

end SlotArray

end ChatServer.Library
