import Mathlib.Data.List.Induction

/-! # Entries by key

A list searched from the front for the first entry with a key. Replacing that
entry by one of the same key, or appending an entry for a key that has none,
changes what is found for this key and for no other.
-/

namespace ChatServer.Library

variable {α κ : Type*} [DecidableEq κ] (key : α → κ)

/-- The first entry with a key. -/
def entryOf (k : κ) (l : List α) : Option α := l.find? fun x => key x = k

variable {key} {k : κ} {l pre post : List α} {e e' : α}

theorem entryOf_eq_none_iff : entryOf key k l = none ↔ k ∉ l.map key := by
  simp [entryOf]

theorem mem_of_entryOf (h : entryOf key k l = some e) : e ∈ l ∧ key e = k :=
  ⟨List.mem_of_find?_eq_some h, by simpa using List.find?_some h⟩

theorem entryOf_split (h : entryOf key k l = some e) :
    ∃ pre post, l = pre ++ e :: post ∧ (∀ x ∈ pre, key x ≠ k) ∧ key e = k := by
  obtain ⟨hk, pre, post, rfl, hpre⟩ := List.find?_eq_some_iff_append.mp h
  exact ⟨pre, post, rfl, by simpa using hpre, by simpa using hk⟩

theorem findIdx?_of_entryOf_none (h : entryOf key k l = none) :
    l.findIdx? (fun x => key x = k) = none :=
  List.findIdx?_eq_none_iff.mpr fun x hx => by simpa using List.find?_eq_none.mp h x hx

theorem findIdx?_split (hpre : ∀ x ∈ pre, key x ≠ k) (he : key e = k) :
    (pre ++ e :: post).findIdx? (fun x => key x = k) = some pre.length := by
  have hnone : pre.findIdx? (fun x => key x = k) = none :=
    List.findIdx?_eq_none_iff.mpr fun x hx => by simpa using hpre x hx
  simp [List.findIdx?_append, hnone, List.findIdx?_cons, he]

theorem entryOf_replace (hpre : ∀ x ∈ pre, key x ≠ k) (he : key e = k) (he' : key e' = k)
    (k' : κ) : entryOf key k' (pre ++ e' :: post) =
      if k' = k then some e' else entryOf key k' (pre ++ e :: post) := by
  have hnone : pre.find? (fun x => key x = k) = none :=
    List.find?_eq_none.mpr fun x hx => by simpa using hpre x hx
  unfold entryOf
  split_ifs with hk
  · subst hk
    simp [List.find?_append, hnone, he']
  · simp [List.find?_append, he, he', Ne.symm hk]

theorem entryOf_concat (h : entryOf key k l = none) (he : key e = k) (k' : κ) :
    entryOf key k' (l ++ [e]) = if k' = k then some e else entryOf key k' l := by
  unfold entryOf at h ⊢
  split_ifs with hk
  · subst hk
    simp [List.find?_append, h, he]
  · simp [List.find?_append, he, Ne.symm hk]

theorem modify_split (pre post : List α) (e : α) (f : α → α) :
    (pre ++ e :: post).modify pre.length f = pre ++ f e :: post := by
  induction pre with
  | nil => rfl
  | cons x pre ih => exact congrArg (x :: ·) ih

theorem entryOf_map {f : α → α} (hf : ∀ x, key (f x) = key x) :
    entryOf key k (l.map f) = (entryOf key k l).map f := by
  have hsame : (fun x => decide (key x = k)) ∘ f = fun x => decide (key x = k) :=
    funext fun x => by rw [Function.comp_apply, hf]
  rw [entryOf, List.find?_map, hsame, entryOf]

variable {ν ι σ : Type*} {as : List (κ × ν)} {a : κ × ν}

/-- The value of the last assignment to a key. -/
def lastOf (k : κ) (as : List (κ × ν)) : Option ν := as.reverse.lookup k

theorem lastOf_concat : lastOf k (as ++ [a]) = if k = a.1 then some a.2 else lastOf k as := by
  unfold lastOf
  rw [List.reverse_append, List.reverse_singleton, List.singleton_append, List.lookup_cons]
  split_ifs with h
  · simp [h]
  · simp only [beq_false_of_ne h]

theorem foldl_assign (name : ι → κ) (value : ι → ν → σ) (s : ι → σ) (i : ι) :
    as.foldl (fun s a i => if name i = a.1 then value i a.2 else s i) s i =
      ((lastOf (name i) as).map (value i)).getD (s i) := by
  induction as using List.reverseRec with
  | nil => rfl
  | append_singleton as a ih =>
    rw [List.foldl_append, List.foldl_cons, List.foldl_nil, lastOf_concat]
    split_ifs with h
    · rfl
    · exact ih

end ChatServer.Library
