import Mathlib.Algebra.Order.Group.Multiset

/-! # Feeds of a changing list

A feed tells a reader who has joined and who has gone, by name. The changes
between two duplicate-free lists, applied to the names of the first, give the
names of the second.
-/

namespace ChatServer.Library

/-- What a line of a feed says. -/
inductive Change (α : Type*) where
  | joined (name : α)
  | gone (name : α)
  deriving DecidableEq, Repr

namespace Change

variable {ι α : Type*} [DecidableEq ι] [DecidableEq α]

/-- A reader's view after a line of the feed. -/
def apply (view : Multiset α) : Change α → Multiset α
  | joined name => name ::ₘ view
  | gone name => view.erase name

variable (name : ι → α) {before after : List ι} {i : ι} {view : Multiset α}

/-- What has changed from one list to another. -/
def between (before after : List ι) : List (Change α) :=
  ((before.filter (· ∉ after)).map fun i => gone (name i)) ++
    (after.filter (· ∉ before)).map fun i => joined (name i)

omit [DecidableEq ι] in
theorem foldl_gone (lost : List ι) : (lost.map fun i => gone (name i)).foldl apply view =
    view - (lost.map name : Multiset α) := by
  induction lost generalizing view with
  | nil => simp
  | cons i lost ih =>
    rw [List.map_cons, List.foldl_cons, ih, List.map_cons, ← Multiset.cons_coe, Multiset.sub_cons]
    rfl

omit [DecidableEq ι] in
theorem foldl_joined (gained : List ι) : (gained.map fun i => joined (name i)).foldl apply view =
    view + (gained.map name : Multiset α) := by
  induction gained generalizing view with
  | nil => simp
  | cons i gained ih =>
    rw [List.map_cons, List.foldl_cons, ih, List.map_cons, ← Multiset.cons_coe, apply,
      Multiset.cons_add, Multiset.add_cons]

/-- A list is made of what another shares with it and what it has gained. -/
theorem coe_eq_kept_add_gained (hbefore : before.Nodup) (hafter : after.Nodup) :
    (after : Multiset ι) = (before.filter (· ∈ after) : Multiset ι) +
      (after.filter (· ∉ before) : Multiset ι) := by
  have hkept : (after.filter (· ∈ before)).Perm (before.filter (· ∈ after)) := by
    refine (List.perm_ext_iff_of_nodup (hafter.filter _) (hbefore.filter _)).mpr fun i => ?_
    simp [and_comm]
  rw [← Multiset.coe_eq_coe.mpr hkept, Multiset.coe_add, Multiset.coe_eq_coe]
  simpa using (List.filter_append_perm (· ∈ before) after).symm

theorem foldl_between (hbefore : before.Nodup) (hafter : after.Nodup) :
    (between name before after).foldl apply (before.map name : Multiset α) =
      (after.map name : Multiset α) := by
  have hsplit : (before : Multiset ι) = (before.filter (· ∈ after) : Multiset ι) +
      (before.filter (· ∉ after) : Multiset ι) := by
    rw [Multiset.coe_add, Multiset.coe_eq_coe]
    simpa using (List.filter_append_perm (· ∈ after) before).symm
  rw [between, List.foldl_append, foldl_gone, foldl_joined]
  simp only [← Multiset.map_coe]
  rw [coe_eq_kept_add_gained hbefore hafter]
  conv_lhs => rw [hsplit]
  rw [Multiset.map_add, Multiset.map_add, Multiset.add_sub_cancel_right]

omit [DecidableEq α] in
theorem between_eq_nil (h : ∀ i, i ∈ after ↔ i ∈ before) : between name before after = [] := by
  have hlost : before.filter (· ∉ after) = [] := List.filter_eq_nil_iff.mpr fun i hi => by
    simp [(h i).mpr hi]
  have hgained : after.filter (· ∉ before) = [] := List.filter_eq_nil_iff.mpr fun i hi => by
    simp [(h i).mp hi]
  rw [between, hlost, hgained]
  rfl

omit [DecidableEq α] in
theorem between_concat (hi : i ∉ before) : between name before (before ++ [i]) =
    [joined (name i)] := by
  have hlost : before.filter (· ∉ before ++ [i]) = [] := List.filter_eq_nil_iff.mpr fun j hj => by
    simp [hj]
  have hgained : (before ++ [i]).filter (· ∉ before) = [i] := by
    rw [List.filter_append, List.filter_eq_nil_iff.mpr fun j hj => by simp [hj]]
    simp [hi]
  rw [between, hlost, hgained]
  rfl

omit [DecidableEq α] in
theorem between_of_gone (hbefore : before.Nodup) (hi : i ∈ before)
    (h : ∀ j, j ∈ after ↔ j ≠ i ∧ j ∈ before) : between name before after = [gone (name i)] := by
  have hlost : before.filter (· ∉ after) = [i] := by
    have hmem : before.filter (· ∉ after) = before.filter (· = i) :=
      List.filter_congr fun j hj => by simp [h, hj]
    rw [hmem, List.filter_eq, List.count_eq_one_of_mem hbefore hi]
    rfl
  have hgained : after.filter (· ∉ before) = [] :=
    List.filter_eq_nil_iff.mpr fun j hj => by simp [((h j).mp hj).2]
  rw [between, hlost, hgained]
  rfl

end Change

end ChatServer.Library
