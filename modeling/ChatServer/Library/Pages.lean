import Mathlib.Data.List.Sort
import Mathlib.Order.WellFounded
import ChatServer.Library.RingBuffer

/-! # Pages from the end of a list

An ascending list is read in pages from its end. The first entry of a page is
the cursor of the next one, which takes its entries from those below it.
-/

namespace ChatServer.Library

variable {α : Type*} {l : List α} {size : ℕ → ℕ} {n k : ℕ}

theorem rdrop_append_rtake (l : List α) (n : ℕ) : l.rdrop n ++ l.rtake n = l := by
  rw [List.rdrop, List.rtake, List.take_append_drop]

theorem length_rdrop (l : List α) (n : ℕ) : (l.rdrop n).length = l.length - n := by
  rw [List.rdrop, List.length_take]
  omega

/-- What is left of a list when pages of the given sizes have been taken from its end. -/
def leftover (l : List α) (size : ℕ → ℕ) : ℕ → List α
  | 0 => l
  | k + 1 => (leftover l size k).rdrop (size k)

theorem leftover_append (l : List α) (size : ℕ → ℕ) (k : ℕ) :
    leftover l size k ++
      (List.range k).reverse.flatMap (fun j => (leftover l size j).rtake (size j)) = l := by
  induction k with
  | zero => simp [leftover]
  | succ k ih =>
    rw [List.range_succ, List.reverse_append, List.reverse_singleton, List.singleton_append,
      List.flatMap_cons, ← List.append_assoc, leftover, rdrop_append_rtake]
    exact ih

theorem leftover_isPrefix {j : ℕ} (hjk : j ≤ k) : leftover l size k <+: leftover l size j := by
  induction hjk with
  | refl => exact List.prefix_rfl
  | step _ ih => exact (List.take_prefix _ _).trans ih

theorem length_leftover_le (hsize : ∀ k, 0 < size k) (k : ℕ) :
    (leftover l size k).length ≤ l.length - k := by
  induction k with
  | zero => exact le_rfl
  | succ k ih =>
    have hk := hsize k
    rw [leftover, length_rdrop]
    omega

theorem exists_leftover_eq_nil (hsize : ∀ k, 0 < size k) :
    ∃ N, leftover l size N = [] ∧ ∀ k < N, leftover l size k ≠ [] := by
  have hend : ∃ N, leftover l size N = [] := by
    refine ⟨l.length, List.eq_nil_of_length_eq_zero ?_⟩
    have hlen := length_leftover_le (l := l) hsize l.length
    omega
  classical
  exact ⟨Nat.find hend, Nat.find_spec hend, fun k hk => Nat.find_min hend hk⟩

section Order

variable [LinearOrder α]

theorem filter_lt_head (hl : l.Pairwise (· < ·)) {c : α} (hc : (l.rtake n).head? = some c) :
    l.filter (· < c) = l.rdrop n := by
  have hsplit := rdrop_append_rtake l n
  obtain ⟨rest, hrest⟩ : ∃ rest, l.rtake n = c :: rest := by
    cases hpage : l.rtake n with
    | nil => rw [hpage] at hc; cases hc
    | cons x rest =>
      rw [hpage] at hc
      exact ⟨rest, by rw [Option.some.inj hc]⟩
  rw [← hsplit, hrest] at hl
  obtain ⟨-, hpage, hbelow⟩ := List.pairwise_append.mp hl
  obtain ⟨hfirst, -⟩ := List.pairwise_cons.mp hpage
  conv_lhs => rw [← hsplit, hrest]
  rw [List.filter_append, List.filter_eq_self.mpr, List.filter_eq_nil_iff.mpr, List.append_nil]
  · intro x hx
    rw [decide_eq_true_eq, not_lt]
    rcases List.mem_cons.mp hx with rfl | hx
    · exact le_rfl
    · exact (hfirst x hx).le
  · exact fun x hx => decide_eq_true (hbelow x hx c List.mem_cons_self)

theorem page_lt_page (hl : l.Pairwise (· < ·)) {j : ℕ} (hjk : j < k) {x y : α}
    (hx : x ∈ (leftover l size k).rtake (size k)) (hy : y ∈ (leftover l size j).rtake (size j)) :
    x < y := by
  have hsorted : (leftover l size j).Pairwise (· < ·) :=
    hl.sublist (leftover_isPrefix (Nat.zero_le j)).sublist
  have hsplit : leftover l size (j + 1) ++ (leftover l size j).rtake (size j) = leftover l size j :=
    rdrop_append_rtake _ _
  rw [← hsplit] at hsorted
  exact (List.pairwise_append.mp hsorted).2.2 x
    ((leftover_isPrefix hjk).subset (mem_of_mem_rtake hx)) y hy

end Order

end ChatServer.Library
