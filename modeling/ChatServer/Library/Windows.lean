import ChatServer.Library.Lines

/-! # A stream read in pieces

A reader with a bounded window takes a stream in pieces. A piece ends behind
the first separator, or where the window is full. Lines that fit the window
come out whole; a longer one is cut, and its tail looks like a line of its own.
-/

namespace ChatServer.Library

variable {α : Type*} [DecidableEq α] {sep : α} {a l r : List α} {n fuel : ℕ}

/-- The next piece of at most `n` elements, and the rest of the stream. -/
def readPiece (sep : α) : ℕ → List α → List α × List α
  | 0, l => ([], l)
  | _ + 1, [] => ([], [])
  | n + 1, x :: l =>
    if x = sep then ([x], l)
    else
      let (piece, rest) := readPiece sep n l
      (x :: piece, rest)

/-- All the pieces of a stream; `fuel` bounds their number. -/
def pieces (sep : α) (n : ℕ) : ℕ → List α → List (List α)
  | 0, _ => []
  | _ + 1, [] => []
  | fuel + 1, x :: l =>
    let (piece, rest) := readPiece sep n (x :: l)
    piece :: pieces sep n fuel rest

theorem readPiece_line (h : sep ∉ a) (hn : a.length < n) :
    readPiece sep n (a ++ sep :: r) = (a ++ [sep], r) := by
  induction a generalizing n with
  | nil =>
    obtain ⟨n, rfl⟩ := Nat.exists_eq_add_of_lt hn
    simp [readPiece]
  | cons x a ih =>
    obtain ⟨hx, ha⟩ := not_or.mp (mt List.mem_cons.mpr h)
    cases n with
    | zero => cases hn
    | succ n =>
      rw [List.cons_append, readPiece, if_neg (Ne.symm hx), ih ha (Nat.lt_of_succ_lt_succ hn)]
      rfl

theorem readPiece_rest (h : sep ∉ a) (hn : a.length ≤ n) : readPiece sep n a = (a, []) := by
  induction a generalizing n with
  | nil => cases n <;> rfl
  | cons x a ih =>
    obtain ⟨hx, ha⟩ := not_or.mp (mt List.mem_cons.mpr h)
    cases n with
    | zero => cases hn
    | succ n => rw [readPiece, if_neg (Ne.symm hx), ih ha (Nat.le_of_succ_le_succ hn)]

theorem readPiece_cases (n : ℕ) (l : List α) : ∃ a, sep ∉ a ∧ a.length ≤ n ∧
    ((readPiece sep n l).1 = a ∨ (readPiece sep n l).1 = a ++ [sep]) := by
  induction n generalizing l with
  | zero => exact ⟨[], List.not_mem_nil, Nat.le_refl 0, .inl rfl⟩
  | succ n ih =>
    cases l with
    | nil => exact ⟨[], List.not_mem_nil, Nat.zero_le _, .inl rfl⟩
    | cons x l =>
      rw [readPiece]
      split_ifs with hx
      · exact ⟨[], List.not_mem_nil, Nat.zero_le _, .inr (by rw [hx]; rfl)⟩
      · obtain ⟨a, ha, hlen, hcases⟩ := ih l
        refine ⟨x :: a, by simp [ha, Ne.symm hx], Nat.succ_le_succ hlen, ?_⟩
        change x :: (readPiece sep n l).1 = x :: a ∨ x :: (readPiece sep n l).1 = x :: a ++ [sep]
        rcases hcases with heq | heq
        · exact .inl (by rw [heq])
        · exact .inr (by rw [heq, List.cons_append])

theorem readPiece_shorter (x : α) (l : List α) :
    (readPiece sep (n + 1) (x :: l)).2.length ≤ l.length := by
  have hrest : ∀ (n : ℕ) (l : List α), (readPiece sep n l).2.length ≤ l.length := by
    intro n
    induction n with
    | zero => exact fun l => Nat.le_refl _
    | succ n ih =>
      intro l
      cases l with
      | nil => exact Nat.le_refl _
      | cons x l =>
        rw [readPiece]
        split_ifs
        · exact Nat.le_succ _
        · exact Nat.le_trans (ih l) (Nat.le_succ _)
  rw [readPiece]
  split_ifs
  · exact Nat.le_refl _
  · exact hrest n l

theorem pieces_fuel (hfuel : l.length ≤ fuel) :
    pieces sep (n + 1) fuel l = pieces sep (n + 1) l.length l := by
  induction hlen : l.length using Nat.strongRecOn generalizing l fuel with
  | _ k ih =>
    subst hlen
    cases l with
    | nil => cases fuel <;> rfl
    | cons x l =>
      cases fuel with
      | zero => cases hfuel
      | succ fuel =>
        have hshort := @readPiece_shorter α _ sep n x l
        have hlt : (readPiece sep (n + 1) (x :: l)).2.length < (x :: l).length :=
          Nat.lt_succ_of_le hshort
        rw [List.length_cons, pieces, pieces]
        simp only
        rw [ih _ hlt (Nat.le_trans hshort (Nat.le_of_succ_le_succ hfuel)) rfl,
          ih _ hlt hshort rfl]

/-- Lines that fit the window come out whole, each with its separator. -/
theorem pieces_eq_lines (hfuel : l.length ≤ fuel)
    (hlines : ∀ x ∈ terminated sep l, x.length < n) (hrest : (unterminated sep l).length ≤ n) :
    pieces sep n fuel l = (terminated sep l).map (· ++ [sep]) ++
      if unterminated sep l = [] then [] else [unterminated sep l] := by
  induction l using lines_induction sep generalizing fuel with
  | rest l h =>
    rw [terminated_of_not_mem h, unterminated_of_not_mem h] at *
    cases l with
    | nil => cases fuel <;> rfl
    | cons x l =>
      cases fuel with
      | zero => cases hfuel
      | succ fuel =>
        rw [pieces, readPiece_rest h hrest]
        cases fuel <;> rfl
  | line a r ha ih =>
    rw [terminated_line ha, unterminated_line ha] at *
    obtain ⟨hfirst, hlines⟩ := List.forall_mem_cons.mp hlines
    rw [List.length_append, List.length_cons] at hfuel
    cases fuel with
    | zero => omega
    | succ fuel =>
      have hstep :
          pieces sep n (fuel + 1) (a ++ sep :: r) = (a ++ [sep]) :: pieces sep n fuel r := by
        have hread := readPiece_line (r := r) ha hfirst
        cases a with
        | nil => simp only [List.nil_append, pieces] at hread ⊢; rw [hread]
        | cons x a => simp only [List.cons_append, pieces] at hread ⊢; rw [hread]
      rw [hstep, ih (by omega) hlines hrest]
      rfl

end ChatServer.Library
