import Mathlib.Data.List.Nodup
import Mathlib.Data.List.Dedup

/-! # Relational tables with a primary key

A table is a list of rows in insertion order, no two with the same key. The
operations are those of the SQL statements a program issues: insertion that
fails on a key already present, insertion that ignores or replaces the old row,
and deletion by a condition, which also returns the number of rows deleted.
-/

namespace ChatServer.Library

/-- Rows in insertion order whose keys are pairwise distinct. -/
structure Table {ρ κ : Type*} (key : ρ → κ) where
  rows : List ρ
  nodup : (rows.map key).Nodup

namespace Table

variable {ρ κ : Type*} {key : ρ → κ}

@[ext] theorem ext {t u : Table key} (h : t.rows = u.rows) : t = u := by
  cases t; cases u; cases h; rfl

instance : Membership ρ (Table key) := ⟨fun t r => r ∈ t.rows⟩

theorem eq_of_key (t : Table key) {r s : ρ} (hr : r ∈ t.rows) (hs : s ∈ t.rows)
    (h : key r = key s) : r = s := List.inj_on_of_nodup_map t.nodup hr hs h

/-- The table without rows. -/
def empty (key : ρ → κ) : Table key := ⟨[], List.nodup_nil⟩

/-- `DELETE FROM t WHERE p`. -/
def delete (t : Table key) (p : ρ → Bool) : Table key where
  rows := t.rows.filter fun r => !p r
  nodup := t.nodup.sublist (List.filter_sublist.map key)

/-- A row is inserted, deleted, or replaced by another one. -/
def Changed (t u : Table key) (r : ρ) : Prop := ¬ (r ∈ t.rows ↔ r ∈ u.rows)

theorem not_changed_self (t : Table key) (r : ρ) : ¬ Changed t t r := fun h => h Iff.rfl

theorem Changed.ne {t u : Table key} {r : ρ} (h : Changed t u r) : u ≠ t := by
  rintro rfl
  exact h Iff.rfl

theorem changed_delete {t : Table key} {p : ρ → Bool} {r : ρ} :
    Changed t (t.delete p) r ↔ r ∈ t.rows ∧ p r := by
  simp [Changed, delete]

theorem forall_delete {P : ρ → Prop} {t : Table key} {p : ρ → Bool} (h : ∀ r ∈ t.rows, P r) :
    ∀ r ∈ (t.delete p).rows, P r := fun r hr => h r (List.mem_filter.mp hr).1

/-- The number of rows a deletion removes. -/
def changes (t : Table key) (p : ρ → Bool) : ℕ := t.rows.countP p

variable [DecidableEq κ]

/-- The row with a key. -/
def find? (t : Table key) (k : κ) : Option ρ := t.rows.find? fun r => key r = k

theorem find?_eq_some {t : Table key} {k : κ} {r : ρ} :
    t.find? k = some r ↔ r ∈ t.rows ∧ key r = k := by
  constructor
  · intro h
    exact ⟨List.mem_of_find?_eq_some h, by simpa using List.find?_some h⟩
  · rintro ⟨hr, hk⟩
    cases hfind : t.find? k with
    | none => simpa [hk] using List.find?_eq_none.mp hfind r hr
    | some s =>
      have hs : key s = k := by simpa using List.find?_some hfind
      rw [t.eq_of_key (List.mem_of_find?_eq_some hfind) hr (hs.trans hk.symm)]

/-- `INSERT INTO t`, failing on the primary key constraint. -/
def insert? (t : Table key) (r : ρ) : Option (Table key) :=
  if h : key r ∈ t.rows.map key then none
  else some ⟨t.rows ++ [r],
    by simpa using List.nodup_append.mpr ⟨t.nodup, by simp, by simpa using h⟩⟩

/-- `INSERT OR IGNORE INTO t`. -/
def insertOrIgnore (t : Table key) (r : ρ) : Table key := (t.insert? r).getD t

/-- `INSERT OR REPLACE INTO t`. -/
def insertOrReplace (t : Table key) (r : ρ) : Table key where
  rows := (t.rows.filter fun x => key x ≠ key r) ++ [r]
  nodup := by
    rw [List.map_append, List.map_singleton]
    refine List.nodup_append.mpr ⟨t.nodup.sublist (List.filter_sublist.map key), by simp, ?_⟩
    simp only [List.mem_map, List.mem_filter, List.mem_singleton]
    rintro _ ⟨x, ⟨-, hx⟩, rfl⟩ _ rfl
    simpa using hx

theorem rows_of_insert? {t u : Table key} {r : ρ} (h : t.insert? r = some u) :
    u.rows = t.rows ++ [r] := by
  unfold insert? at h
  split_ifs at h
  cases h
  rfl

theorem forall_insert? {P : ρ → Prop} {t u : Table key} {r : ρ} (h : ∀ s ∈ t.rows, P s)
    (hr : P r) (hu : t.insert? r = some u) : ∀ s ∈ u.rows, P s := by
  rw [rows_of_insert? hu]
  exact List.forall_mem_append.mpr ⟨h, List.forall_mem_singleton.mpr hr⟩

theorem forall_insertOrIgnore {P : ρ → Prop} {t : Table key} {r : ρ} (h : ∀ s ∈ t.rows, P s)
    (hr : P r) : ∀ s ∈ (t.insertOrIgnore r).rows, P s := by
  unfold insertOrIgnore
  cases hu : t.insert? r with
  | none => exact h
  | some u => exact forall_insert? h hr hu

theorem forall_insertOrReplace {P : ρ → Prop} {t : Table key} {r : ρ} (h : ∀ s ∈ t.rows, P s)
    (hr : P r) : ∀ s ∈ (t.insertOrReplace r).rows, P s :=
  List.forall_mem_append.mpr
    ⟨fun s hs => h s (List.mem_filter.mp hs).1, List.forall_mem_singleton.mpr hr⟩

theorem key_eq_of_changed_insertOrReplace {t : Table key} {r s : ρ}
    (h : Changed t (t.insertOrReplace r) s) : key s = key r := by
  by_contra hne
  refine h ?_
  have hs : s ≠ r := fun he => hne (congrArg key he)
  simp [insertOrReplace, hne, hs]

theorem eq_of_changed_insertOrIgnore {t : Table key} {r s : ρ}
    (h : Changed t (t.insertOrIgnore r) s) : s = r := by
  by_contra hne
  refine h ?_
  unfold insertOrIgnore insert?
  split_ifs
  · rfl
  · simp [hne]

theorem find?_insertOrReplace (t : Table key) (r : ρ) (k : κ) :
    (t.insertOrReplace r).find? k = if key r = k then some r else t.find? k := by
  simp only [find?, insertOrReplace, List.find?_append, List.find?_filter,
    decide_eq_true_eq]
  split_ifs with hk
  · have hnone : t.rows.find? (fun x => decide (key x ≠ key r ∧ key x = k)) = none := by
      rw [List.find?_eq_none]
      intro x _
      simp [hk]
    rw [hnone]
    simp [hk]
  · have hsame : (fun x => decide (key x ≠ key r ∧ key x = k)) =
        fun x => decide (key x = k) := by
      funext x
      by_cases hx : key x = k
      · simp [hx, Ne.symm hk]
      · simp [hx]
    rw [hsame]
    simp [hk]

end Table

end ChatServer.Library
