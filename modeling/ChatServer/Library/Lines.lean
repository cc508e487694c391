import Mathlib.Data.List.Basic

/-! # Lines of a stream

A stream is the lines that a separator terminates, followed by an unterminated
rest. What arrives later continues the rest and leaves the lines as they are.
-/

namespace ChatServer.Library

variable {α : Type*} [DecidableEq α] {sep : α} {l a b r x : List α}

/-- The terminated lines, without their separators. -/
def terminated (sep : α) (l : List α) : List (List α) := (l.splitOn sep).dropLast

/-- What follows the last separator. -/
def unterminated (sep : α) (l : List α) : List α :=
  (l.splitOn sep).getLast (List.splitOn_ne_nil sep l)

theorem terminated_of_not_mem (h : sep ∉ l) : terminated sep l = [] := by
  rw [terminated, List.splitOn_eq_singleton h]
  rfl

theorem unterminated_of_not_mem (h : sep ∉ l) : unterminated sep l = l := by
  simp only [unterminated, List.splitOn_eq_singleton h, List.getLast_singleton]

theorem terminated_line (h : sep ∉ a) :
    terminated sep (a ++ sep :: r) = a :: terminated sep r := by
  rw [terminated, List.splitOn_append_cons_self_of_not_mem h,
    List.dropLast_cons_of_ne_nil (List.splitOn_ne_nil sep r)]
  rfl

theorem unterminated_line (h : sep ∉ a) :
    unterminated sep (a ++ sep :: r) = unterminated sep r := by
  simp only [unterminated, List.splitOn_append_cons_self_of_not_mem h,
    List.getLast_cons (List.splitOn_ne_nil sep r)]

variable (sep) in
theorem lines_induction {P : List α → Prop} (rest : ∀ l, sep ∉ l → P l)
    (line : ∀ a r, sep ∉ a → P r → P (a ++ sep :: r)) (l : List α) : P l := by
  induction hn : l.length using Nat.strongRecOn generalizing l with
  | _ n ih =>
    by_cases hmem : sep ∈ l
    · obtain ⟨a, r, rfl, ha⟩ := List.eq_append_cons_of_mem hmem
      refine line a r ha (ih r.length ?_ r rfl)
      rw [← hn, List.length_append, List.length_cons]
      omega
    · exact rest l hmem

theorem not_mem_unterminated (l : List α) : sep ∉ unterminated sep l := by
  induction l using lines_induction sep with
  | rest l h => rwa [unterminated_of_not_mem h]
  | line a r ha ih => rwa [unterminated_line ha]

/-- The lines of what arrives later are those of the rest and it. -/
theorem terminated_append :
    terminated sep (a ++ b) = terminated sep a ++ terminated sep (unterminated sep a ++ b) := by
  induction a using lines_induction sep with
  | rest a h => rw [terminated_of_not_mem h, unterminated_of_not_mem h, List.nil_append]
  | line a r ha ih =>
    rw [List.append_assoc, List.cons_append, terminated_line ha, terminated_line ha,
      unterminated_line ha, ih, List.cons_append]

theorem unterminated_append :
    unterminated sep (a ++ b) = unterminated sep (unterminated sep a ++ b) := by
  induction a using lines_induction sep with
  | rest a h => rw [unterminated_of_not_mem h]
  | line a r ha ih =>
    rw [List.append_assoc, List.cons_append, unterminated_line ha, unterminated_line ha, ih]

theorem terminated_eq_nil_iff : terminated sep l = [] ↔ sep ∉ l := by
  refine ⟨fun h hmem => ?_, terminated_of_not_mem⟩
  obtain ⟨a, r, rfl, ha⟩ := List.eq_append_cons_of_mem hmem
  rw [terminated_line ha] at h
  cases h

theorem terminated_append_eq_iff : terminated sep (a ++ b) = terminated sep a ↔ sep ∉ b := by
  rw [terminated_append, List.append_right_eq_self, terminated_eq_nil_iff, List.mem_append]
  exact ⟨fun h hb => h (.inr hb), fun h => not_or.mpr ⟨not_mem_unterminated a, h⟩⟩

theorem length_lt_of_terminated (h : x ∈ terminated sep l) : x.length < l.length := by
  induction l using lines_induction sep with
  | rest l hl =>
    rw [terminated_of_not_mem hl] at h
    cases h
  | line a r ha ih =>
    rw [terminated_line ha] at h
    rw [List.length_append, List.length_cons]
    rcases List.mem_cons.mp h with rfl | h
    · omega
    · have hlt := ih h
      omega

end ChatServer.Library
