import Mathlib.Data.List.Pairwise
import Mathlib.Data.Nat.Find
import Mathlib.Data.Nat.Notation
import Mathlib.Logic.Function.Basic
import Mathlib.Logic.Relation
import Mathlib.Tactic.Common

/-! # Locks taken in order

Threads take and release locks. If each lock has a rank and every thread takes a
lock only while all locks it holds are of a lower rank, then no thread holds two
locks of one rank, and some thread that holds a lock can always go on.
-/

namespace ChatServer.Library

/-- One operation on a lock. A lock taken for reading is shared. -/
inductive LockOp (L : Type*) where
  | acquire (l : L) (shared : Bool)
  | release (l : L)
  deriving DecidableEq

section Discipline

variable {L : Type*} [DecidableEq L]

/-- The locks a thread holds after one more operation, the last one first. -/
def LockOp.apply (held : List (L × Bool)) : LockOp L → List (L × Bool)
  | .acquire l shared => (l, shared) :: held
  | .release l => held.eraseP (·.1 = l)

/-- The locks a thread holds after its operations. -/
def heldAfter (held : List (L × Bool)) (ops : List (LockOp L)) : List (L × Bool) :=
  ops.foldl LockOp.apply held

/-- A thread releases locks it holds, and takes locks above all it holds. -/
def LockOp.Permitted (rank : L → ℕ) (held : List (L × Bool)) : LockOp L → Prop
  | .acquire l _ => ∀ h ∈ held, rank h.1 < rank l
  | .release l => ∃ shared, (l, shared) ∈ held

/-- Each operation is permitted, from the locks held at the start. -/
def Ordered (rank : L → ℕ) : List (L × Bool) → List (LockOp L) → Prop
  | _, [] => True
  | held, op :: ops => op.Permitted rank held ∧ Ordered rank (op.apply held) ops

variable {rank : L → ℕ} {held : List (L × Bool)} {op : LockOp L} {ops pre post : List (LockOp L)}

theorem heldAfter_append :
    heldAfter held (pre ++ post) = heldAfter (heldAfter held pre) post := List.foldl_append

theorem ordered_append :
    Ordered rank held (pre ++ post) ↔
      Ordered rank held pre ∧ Ordered rank (heldAfter held pre) post := by
  induction pre generalizing held with
  | nil => simp [Ordered, heldAfter]
  | cons op pre ih =>
    simp only [List.cons_append, Ordered, ih, heldAfter, List.foldl_cons, and_assoc]

/-- The ranks of the locks held go down from the last one taken. -/
def Descending (rank : L → ℕ) (held : List (L × Bool)) : Prop :=
  held.Pairwise fun h h' => rank h'.1 < rank h.1

theorem Descending.apply (h : Descending rank held) (hop : op.Permitted rank held) :
    Descending rank (op.apply held) := by
  cases op with
  | acquire l shared => exact List.pairwise_cons.mpr ⟨hop, h⟩
  | release l => exact h.sublist (List.eraseP_sublist)

theorem Descending.heldAfter (h : Descending rank held) (hops : Ordered rank held ops) :
    Descending rank (heldAfter held ops) := by
  induction ops generalizing held with
  | nil => exact h
  | cons op ops ih => exact ih (h.apply hops.1) hops.2

theorem Descending.eq_of_rank_eq (h : Descending rank held) {x y : L × Bool} (hx : x ∈ held)
    (hy : y ∈ held) (hrank : rank x.1 = rank y.1) : x = y := by
  by_contra hne
  have : Std.Symm fun h h' : L × Bool => rank h.1 ≠ rank h'.1 := ⟨fun _ _ h => h.symm⟩
  have hdistinct : held.Pairwise fun h h' => rank h.1 ≠ rank h'.1 :=
    h.imp fun hlt => (Nat.ne_of_lt hlt).symm
  exact hdistinct.forall hx hy hne hrank

end Discipline

/-- Threads that share locks: what each has still to do, and the locks it holds. -/
structure LockThreads (ι L : Type*) where
  todo : ι → List (LockOp L)
  held : ι → List (L × Bool)

namespace LockThreads

variable {ι L : Type*} [DecidableEq ι] [DecidableEq L]

/-- Threads that hold nothing yet. -/
def start (todo : ι → List (LockOp L)) : LockThreads ι L := ⟨todo, fun _ => []⟩

/-- A lock is taken when no thread holds it, or for reading when none holds it for writing. -/
def Enabled (s : LockThreads ι L) : LockOp L → Prop
  | .acquire l false => ∀ j shared, (l, shared) ∉ s.held j
  | .acquire l true => ∀ j, (l, false) ∉ s.held j
  | .release _ => True

/-- A thread does its next operation. -/
inductive Step (s : LockThreads ι L) (i : ι) : LockThreads ι L → Prop where
  | next {op : LockOp L} {ops : List (LockOp L)} : s.todo i = op :: ops → s.Enabled op →
      Step s i ⟨Function.update s.todo i ops, Function.update s.held i (op.apply (s.held i))⟩

/-- The states that some order of steps leads to. -/
def Reachable (s s' : LockThreads ι L) : Prop :=
  Relation.ReflTransGen (fun s s' => ∃ i, Step s i s') s s'

/-- Each thread takes its locks in order, and in the end has released all of them. -/
structure Sound (rank : L → ℕ) (s : LockThreads ι L) : Prop where
  descending : ∀ i, Descending rank (s.held i)
  ordered : ∀ i, Ordered rank (s.held i) (s.todo i)
  released : ∀ i, heldAfter (s.held i) (s.todo i) = []

variable {rank : L → ℕ} {s s' : LockThreads ι L} {i : ι}

theorem Sound.step (h : Sound rank s) (hstep : Step s i s') : Sound rank s' := by
  cases hstep with
  | @next op ops htodo hen =>
    have hordered := h.ordered i
    have hreleased := h.released i
    rw [htodo] at hordered hreleased
    refine ⟨fun j => ?_, fun j => ?_, fun j => ?_⟩
    all_goals rcases eq_or_ne j i with rfl | hne
    · simpa only [Function.update_self] using (h.descending j).apply hordered.1
    · simpa only [Function.update_of_ne hne] using h.descending j
    · simpa only [Function.update_self] using hordered.2
    · simpa only [Function.update_of_ne hne] using h.ordered j
    · simpa only [Function.update_self, heldAfter, List.foldl_cons] using hreleased
    · simpa only [Function.update_of_ne hne] using h.released j

theorem Sound.reachable (h : Sound rank s) (hs : Reachable s s') : Sound rank s' := by
  induction hs with
  | refl => exact h
  | tail _ hstep ih => exact ih.step hstep.choose_spec

omit [DecidableEq ι] [DecidableEq L] in
theorem exists_highest (s : LockThreads ι L) {top : ℕ} (htop : ∀ l, rank l ≤ top)
    (hheld : ∃ i, s.held i ≠ []) :
    ∃ i, ∃ h ∈ s.held i, ∀ j, ∀ k ∈ s.held j, rank k.1 ≤ rank h.1 := by
  classical
  have hsome : ∃ n, ∃ i, ∃ h ∈ s.held i, n = top - rank h.1 := by
    obtain ⟨i, hi⟩ := hheld
    obtain ⟨h, hmem⟩ := List.exists_mem_of_ne_nil _ hi
    exact ⟨_, i, h, hmem, rfl⟩
  obtain ⟨i, h, hmem, hn⟩ := Nat.find_spec hsome
  refine ⟨i, h, hmem, fun j k hk => ?_⟩
  have hmin := Nat.find_min' hsome ⟨j, k, hk, rfl⟩
  have := htop h.1
  have := htop k.1
  omega

/-- Of the threads that hold a lock, one that holds a lock of the highest rank can go on. -/
theorem Sound.progress (hs : Sound rank s) {top : ℕ} (htop : ∀ l, rank l ≤ top)
    (hheld : ∃ i, s.held i ≠ []) : ∃ i, s.held i ≠ [] ∧ ∃ s', Step s i s' := by
  obtain ⟨i, h, hmem, hmax⟩ := exists_highest s htop hheld
  have hordered := hs.ordered i
  have hreleased := hs.released i
  refine ⟨i, List.ne_nil_of_mem hmem, ?_⟩
  cases htodo : s.todo i with
  | nil =>
    rw [htodo] at hreleased
    exact absurd hreleased (List.ne_nil_of_mem hmem)
  | cons op ops =>
    rw [htodo] at hordered
    refine ⟨_, .next htodo ?_⟩
    cases op with
    | release l => trivial
    | acquire l shared =>
      -- The lock it wants is above every lock that anyone holds.
      have hfree : ∀ j mode, (l, mode) ∉ s.held j := fun j mode hl =>
        Nat.not_lt_of_le (hmax j _ hl) (hordered.1 h hmem)
      cases shared with
      | false => exact hfree
      | true => exact fun j => hfree j false

end LockThreads

end ChatServer.Library
