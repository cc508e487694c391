import Mathlib.Data.List.DropRight
import Mathlib.Data.List.Range
import Mathlib.Logic.Function.Basic
import Mathlib.Tactic.Common

/-! # Circular buffers

A ring keeps its entries in an array of fixed capacity, with the index of the
oldest entry and a count that may exceed the capacity. Read from the oldest to
the newest entry it is a list; writing appends to that list and, once the
ring is full, drops its head.
-/

namespace ChatServer.Library

section RTake

variable {α β : Type*} {l k : List α} {n : ℕ}

theorem length_rtake : (l.rtake n).length = min n l.length := by
  rw [List.rtake, List.length_drop]
  omega

theorem rtake_of_length_le (h : l.length ≤ n) : l.rtake n = l := by
  rw [List.rtake, Nat.sub_eq_zero_of_le h, List.drop_zero]

theorem rtake_rtake_append : (l.rtake n ++ k).rtake n = (l ++ k).rtake n := by
  simp only [List.rtake_eq_reverse_take_reverse, List.reverse_append, List.reverse_reverse,
    List.take_append, List.take_take]
  rw [Nat.min_eq_left (Nat.sub_le _ _)]

theorem rtake_append_of_le (h : n ≤ k.length) : (l ++ k).rtake n = k.rtake n := by
  rw [List.rtake, List.rtake, List.length_append, Nat.add_sub_assoc h, List.drop_append,
    List.drop_of_length_le (Nat.le_add_right _ _), Nat.add_sub_cancel_left, List.nil_append]

theorem map_rtake (f : α → β) : (l.rtake n).map f = (l.map f).rtake n := by
  simp only [List.rtake, List.map_drop, List.length_map]

theorem mem_of_mem_rtake {x : α} (h : x ∈ l.rtake n) : x ∈ l := List.mem_of_mem_drop h

theorem pairwise_rtake_concat_iff {R : α → α → Prop} (htrans : ∀ a b c, R a b → R b c → R a c)
    (hl : l.Pairwise R) {x : α} :
    ((l ++ [x]).rtake n).Pairwise R ↔ (1 < n → ∀ y ∈ l, R y x) := by
  constructor
  · intro h hn
    induction l using List.reverseRecOn with
    | nil => simp
    | append_singleton l z _ =>
      have hlast : ([z, x] : List α) <:+ (l ++ [z] ++ [x]).rtake n := by
        rw [List.append_assoc]
        refine List.suffix_of_suffix_length_le (List.suffix_append _ _) (List.drop_suffix _ _) ?_
        rw [length_rtake, List.length_append]
        simp only [List.cons_append, List.nil_append, List.length_cons, List.length_nil]
        omega
      have hz : R z x := List.rel_of_pairwise_cons (h.sublist hlast.sublist) (by simp)
      intro y hy
      rcases List.mem_append.mp hy with hy | hy
      · exact htrans y z x ((List.pairwise_append.mp hl).2.2 y hy z (by simp)) hz
      · rwa [List.mem_singleton.mp hy]
  · intro h
    rcases Nat.lt_or_ge 1 n with hn | hn
    · refine List.Pairwise.sublist (List.drop_sublist _ _) ?_
      refine List.pairwise_append.mpr ⟨hl, List.pairwise_singleton _ _, fun y hy z hz => ?_⟩
      rw [List.mem_singleton.mp hz]
      exact h hn y hy
    · have hlen : ((l ++ [x]).rtake n).length ≤ 1 := by
        rw [length_rtake]
        omega
      cases hlast : (l ++ [x]).rtake n with
      | nil => exact .nil
      | cons y rest =>
        rw [hlast, List.length_cons] at hlen
        obtain rfl : rest = [] := List.eq_nil_of_length_eq_zero (by omega)
        exact List.pairwise_singleton R y

end RTake

/-- A circular buffer: array, index of the oldest entry, running count and capacity. -/
structure RingBuffer (α : Type*) where
  slots : ℕ → α
  start : ℕ
  count : ℕ
  cap : ℕ

namespace RingBuffer

variable {α β : Type*}

/-- The number of entries that can be read. -/
def stored (r : RingBuffer α) : ℕ := if r.count < r.cap then r.count else r.cap

/-- The array index of the entry at a position counted from the oldest one. -/
def index (r : RingBuffer α) (i : ℕ) : ℕ :=
  if r.count < r.cap then i else (r.start + i) % r.cap

/-- The array index the next entry is written to. -/
def slot (r : RingBuffer α) : ℕ := if r.count < r.cap then r.count else r.start

/-- The entries from the oldest to the newest. -/
def toList (r : RingBuffer α) : List α := (List.range r.stored).map fun i => r.slots (r.index i)

/-- Write an entry, dropping the oldest one of a full ring, and set the count. -/
def write (r : RingBuffer α) (x : α) (count : ℕ) : RingBuffer α where
  slots := Function.update r.slots r.slot x
  start := if r.count < r.cap then r.start else (r.start + 1) % r.cap
  count := count
  cap := r.cap

/-- Replace the entry at an array index. -/
def set (r : RingBuffer α) (i : ℕ) (x : α) : RingBuffer α :=
  { r with slots := Function.update r.slots i x }

/-- The oldest entry is in range, and at index zero until the ring has filled. -/
structure Valid (r : RingBuffer α) : Prop where
  start_lt : r.start < r.cap
  start_eq : r.count < r.cap → r.start = 0

variable {r : RingBuffer α}

@[simp] theorem write_count (x : α) (count : ℕ) : (r.write x count).count = count := rfl

@[simp] theorem write_cap (x : α) (count : ℕ) : (r.write x count).cap = r.cap := rfl

@[simp] theorem length_toList : r.toList.length = r.stored := by simp [toList]

theorem stored_eq_min : r.stored = min r.count r.cap := by unfold stored; split <;> omega

theorem stored_le : r.stored ≤ r.cap := by rw [stored_eq_min]; exact Nat.min_le_right _ _

theorem getElem_toList {i : ℕ} (h : i < r.toList.length) :
    r.toList[i] = r.slots (r.index i) := by simp [toList]

theorem index_lt {i : ℕ} (hi : i < r.stored) : r.index i < r.cap := by
  unfold index stored at *
  split_ifs at * with h
  · omega
  · exact Nat.mod_lt _ (by omega)

theorem Valid.slot_lt (hv : r.Valid) : r.slot < r.cap := by
  unfold slot
  split_ifs with h
  · exact h
  · exact hv.start_lt

theorem Valid.index_eq (hv : r.Valid) {i : ℕ} (hi : i < r.stored) :
    r.index i = if r.start + i < r.cap then r.start + i else r.start + i - r.cap := by
  have hs := hv.start_lt
  have hle := r.stored_le
  by_cases h : r.count < r.cap
  · have hz := hv.start_eq h
    rw [index, if_pos h]
    split_ifs <;> omega
  · rw [index, if_neg h]
    split_ifs with h'
    · exact Nat.mod_eq_of_lt h'
    · rw [Nat.mod_eq_sub_mod (by omega), Nat.mod_eq_of_lt (by omega)]

/-- One scan visits each slot at most once. -/
theorem Valid.index_injOn (hv : r.Valid) {i j : ℕ} (hi : i < r.stored) (hj : j < r.stored)
    (h : r.index i = r.index j) : i = j := by
  have hs := hv.start_lt
  have hle := r.stored_le
  rw [hv.index_eq hi, hv.index_eq hj] at h
  split_ifs at h <;> omega

theorem Valid.write (hv : r.Valid) (x : α) {count : ℕ} (hc : count < r.cap → r.count < r.cap) :
    (r.write x count).Valid := by
  have hs := hv.start_lt
  have hz := hv.start_eq
  constructor
  · simp only [RingBuffer.write]
    split_ifs
    · exact hs
    · exact Nat.mod_lt _ (by omega)
  · intro h
    simp only [RingBuffer.write] at h ⊢
    rw [if_pos (hc h), hz (hc h)]

theorem Valid.set (hv : r.Valid) (i : ℕ) (x : α) : (r.set i x).Valid := ⟨hv.1, hv.2⟩

theorem Valid.toList_write_of_lt (hv : r.Valid) (h : r.count < r.cap) (x : α) :
    (r.write x (r.count + 1)).toList = r.toList ++ [x] := by
  have hv' : (r.write x (r.count + 1)).Valid := hv.write x (by omega)
  have hz := hv.start_eq h
  apply List.ext_getElem
  · simp only [length_toList, List.length_append, List.length_singleton, stored_eq_min,
      write_count, write_cap]
    omega
  · intro i h₁ h₂
    have hi : i < r.count + 1 := by
      simpa [stored, if_pos h] using h₂
    rw [length_toList] at h₁
    have hw : (r.write x (r.count + 1)).index i = i := by
      rw [hv'.index_eq h₁]
      simp only [RingBuffer.write, if_pos h, hz]
      split_ifs <;> omega
    rw [getElem_toList, hw, List.getElem_append]
    simp only [RingBuffer.write, slot, if_pos h]
    split_ifs with hlt
    · have hlt' : i < r.count := by simpa [stored, if_pos h] using hlt
      rw [Function.update_of_ne (by omega), getElem_toList, index, if_pos h]
    · have hlt' : ¬ i < r.count := by simpa [stored, if_pos h] using hlt
      obtain rfl : i = r.count := by omega
      simp

theorem Valid.toList_write_of_ge (hv : r.Valid) (h : r.cap ≤ r.count) (x : α) {count : ℕ}
    (hc : r.cap ≤ count) : (r.write x count).toList = r.toList.tail ++ [x] := by
  have hn : ¬ r.count < r.cap := by omega
  have hv' : (r.write x count).Valid := hv.write x (by omega)
  have hs := hv.start_lt
  have hst : r.stored = r.cap := if_neg hn
  have hst' : (r.write x count).stored = r.cap := if_neg (by simp; omega)
  apply List.ext_getElem
  · simp only [length_toList, hst', List.length_append, List.length_tail, hst,
      List.length_singleton]
    omega
  · intro i h₁ h₂
    rw [length_toList, hst'] at h₁
    have hw : (r.write x count).index i =
        if r.start + i + 1 < r.cap then r.start + i + 1
        else r.start + i + 1 - r.cap := by
      rw [hv'.index_eq (by omega)]
      simp only [RingBuffer.write, if_neg hn]
      rcases Nat.lt_or_ge (r.start + 1) r.cap with hlt | hge
      · rw [Nat.mod_eq_of_lt hlt]; split_ifs <;> omega
      · obtain he : r.start + 1 = r.cap := by omega
        rw [he, Nat.mod_self]; split_ifs <;> omega
    rw [getElem_toList, hw, List.getElem_append]
    simp only [RingBuffer.write, slot, if_neg hn]
    split_ifs with h₃ h₄ h₄
    · have h₅ : i + 1 < r.stored := by simp at h₄; omega
      rw [Function.update_of_ne (by omega), List.getElem_tail, getElem_toList,
        hv.index_eq h₅, if_pos (by omega), Nat.add_assoc]
    · simp [hst] at h₄; omega
    · have h₅ : i + 1 < r.stored := by simp at h₄; omega
      rw [Function.update_of_ne (by omega), List.getElem_tail, getElem_toList,
        hv.index_eq h₅, if_neg (by omega), Nat.add_assoc]
    · have h₅ : ¬ i + 1 < r.cap := by simp [hst] at h₄; omega
      obtain he : r.start + i + 1 - r.cap = r.start := by omega
      simp [he]

/-- Writing appends the entry and keeps as many of the last entries as there are slots. -/
theorem Valid.toList_write (hv : r.Valid) (x : α) {count : ℕ}
    (hc : if r.count < r.cap then count = r.count + 1 else r.cap ≤ count) :
    (r.write x count).toList = (r.toList ++ [x]).rtake r.cap := by
  have hlen : (r.toList ++ [x]).length = r.stored + 1 := by simp
  split_ifs at hc with h
  · rw [hc, hv.toList_write_of_lt h, rtake_of_length_le]
    rw [hlen, stored, if_pos h]
    exact h
  · have hst : r.stored = r.cap := if_neg h
    have hs := hv.start_lt
    rw [hv.toList_write_of_ge (not_lt.mp h) x hc, List.rtake, hlen, hst,
      Nat.add_sub_cancel_left, List.drop_one, List.tail_append_of_ne_nil]
    rw [← List.length_pos_iff, length_toList, hst]
    exact Nat.zero_lt_of_lt hs

theorem Valid.toList_set (hv : r.Valid) {i : ℕ} (hi : i < r.stored) (x : α) :
    (r.set (r.index i) x).toList = r.toList.set i x := by
  apply List.ext_getElem
  · simp only [length_toList, List.length_set]; rfl
  · intro j h₁ h₂
    have hj : j < r.stored := by simpa using h₂
    rw [getElem_toList, List.getElem_set]
    change Function.update r.slots (r.index i) x (r.index j) = _
    split_ifs with he
    · subst he; simp
    · rw [Function.update_of_ne fun h => he (hv.index_injOn hi hj h.symm), getElem_toList]

/-- The ring over an array of zeroed slots, as allocated. -/
def empty (zero : α) (cap : ℕ) : RingBuffer α := ⟨fun _ => zero, 0, 0, cap⟩

theorem valid_empty (zero : α) {cap : ℕ} (h : 0 < cap) : (empty zero cap).Valid := ⟨h, fun _ => rfl⟩

@[simp] theorem toList_empty (zero : α) (cap : ℕ) : (empty zero cap).toList = [] := by
  have h : (empty zero cap).stored = 0 := by
    unfold stored; split_ifs with h
    · rfl
    · exact Nat.eq_zero_of_not_pos h
  simp [toList, h]

end RingBuffer

end ChatServer.Library
