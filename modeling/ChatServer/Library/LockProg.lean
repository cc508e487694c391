import ChatServer.Library.LockOrder

/-! # Programs that lock

A program reduced to its operations on locks: its conditions are left open, so
that each branch may be taken. A check of the text, one function at a time,
shows that every path through a program takes its locks in order and releases
them, whatever its callers hold.
-/

namespace ChatServer.Library

/-- The statements that lock, and the control flow between them. -/
inductive LockProg (L A : Type*) where
  | skip
  | acquire (l : L) (shared : Bool)
  | release (l : L)
  | ret
  | seq (p q : LockProg L A)
  | alt (p q : LockProg L A)
  | loop (p : LockProg L A)
  | pick (f : A → LockProg L A)
  | call (p : LockProg L A)

namespace LockProg

variable {L A : Type*}

/-- Statements one after the other. -/
def block (ps : List (LockProg L A)) : LockProg L A := ps.foldr seq skip

/-- A statement under a condition. -/
def maybe (p : LockProg L A) : LockProg L A := alt p skip

/-- The cases of a switch; none of them may apply. -/
def switch (ps : List (LockProg L A)) : LockProg L A := ps.foldr alt skip

/-- The paths through a program, and whether they end with a return. -/
inductive Path : LockProg L A → List (LockOp L) → Bool → Prop where
  | skip : Path skip [] false
  | acquire {l : L} {shared : Bool} : Path (acquire l shared) [.acquire l shared] false
  | release {l : L} : Path (release l) [.release l] false
  | ret : Path ret [] true
  | seq_ret {p q : LockProg L A} {ops : List (LockOp L)} : Path p ops true → Path (seq p q) ops true
  | seq {p q : LockProg L A} {ops ops' : List (LockOp L)} {r : Bool} :
      Path p ops false → Path q ops' r → Path (seq p q) (ops ++ ops') r
  | alt_left {p q : LockProg L A} {ops : List (LockOp L)} {r : Bool} :
      Path p ops r → Path (alt p q) ops r
  | alt_right {p q : LockProg L A} {ops : List (LockOp L)} {r : Bool} :
      Path q ops r → Path (alt p q) ops r
  | loop_done {p : LockProg L A} : Path (loop p) [] false
  | loop_ret {p : LockProg L A} {ops : List (LockOp L)} : Path p ops true → Path (loop p) ops true
  | loop_next {p : LockProg L A} {ops ops' : List (LockOp L)} {r : Bool} :
      Path p ops false → Path (loop p) ops' r → Path (loop p) (ops ++ ops') r
  | pick {f : A → LockProg L A} {ops : List (LockOp L)} {r : Bool} (a : A) :
      Path (f a) ops r → Path (pick f) ops r
  | call {p : LockProg L A} {ops : List (LockOp L)} {r : Bool} :
      Path p ops r → Path (call p) ops false

variable [DecidableEq L] (rank : L → ℕ)

/-- The least rank above the locks of a function and those of its callers. -/
def level (k : ℕ) (own : List (L × Bool)) : ℕ := own.foldr (fun h m => max (rank h.1 + 1) m) k

/--
The check of a function whose callers hold locks of a rank below `k` only. It
follows the locks of its own that the function holds; a function returns when it
holds none, and the branches of a condition hold the same ones after it.
-/
def Checks : LockProg L A → ℕ → List (L × Bool) → (List (L × Bool) → Prop) → Prop
  | skip, _, own, next => next own
  | acquire l shared, k, own, next => level rank k own ≤ rank l ∧ next ((l, shared) :: own)
  | release l, _, own, next => (∃ shared, (l, shared) ∈ own) ∧ next (own.eraseP (·.1 = l))
  | ret, _, own, _ => own = []
  | seq p q, k, own, next => p.Checks k own fun own => q.Checks k own next
  | alt p q, k, own, next => p.Checks k own (· = own) ∧ q.Checks k own (· = own) ∧ next own
  | loop p, k, own, next => p.Checks k own (· = own) ∧ next own
  | pick f, k, own, next => ∀ a, (f a).Checks k own next
  | call p, k, own, next => p.Checks (level rank k own) [] (· = []) ∧ next own

/-- A function that is left with the locks it was called with. -/
def Balanced (k : ℕ) (p : LockProg L A) : Prop := p.Checks rank k [] (· = [])

section Checks

variable {rank} {k : ℕ} {own : List (L × Bool)} {next : List (L × Bool) → Prop} {l : L}
  {shared : Bool} {p q : LockProg L A} {ps : List (LockProg L A)} {f : A → LockProg L A}

@[simp] theorem checks_skip : (skip : LockProg L A).Checks rank k own next ↔ next own := Iff.rfl

@[simp] theorem checks_acquire : (acquire l shared : LockProg L A).Checks rank k own next ↔
    level rank k own ≤ rank l ∧ next ((l, shared) :: own) := Iff.rfl

@[simp] theorem checks_release_cons :
    (release l : LockProg L A).Checks rank k ((l, shared) :: own) next ↔ next own := by
  simp [Checks]

@[simp] theorem checks_ret : (ret : LockProg L A).Checks rank k own next ↔ own = [] := Iff.rfl

@[simp] theorem checks_loop : (loop p).Checks rank k own next ↔
    p.Checks rank k own (· = own) ∧ next own := Iff.rfl

@[simp] theorem checks_alt : (alt p q).Checks rank k own next ↔
    p.Checks rank k own (· = own) ∧ q.Checks rank k own (· = own) ∧ next own := Iff.rfl

@[simp] theorem checks_pick : (pick f).Checks rank k own next ↔
    ∀ a, (f a).Checks rank k own next := Iff.rfl

@[simp] theorem checks_call : (call p).Checks rank k own next ↔
    p.Balanced rank (level rank k own) ∧ next own := Iff.rfl

@[simp] theorem checks_block_nil : (block [] : LockProg L A).Checks rank k own next ↔ next own :=
  Iff.rfl

@[simp] theorem checks_block_cons : (block (p :: ps)).Checks rank k own next ↔
    p.Checks rank k own fun own => (block ps).Checks rank k own next := Iff.rfl

@[simp] theorem checks_maybe : (maybe p).Checks rank k own next ↔
    p.Checks rank k own (· = own) ∧ next own := by
  simp [maybe]

@[simp] theorem checks_switch_nil : (switch [] : LockProg L A).Checks rank k own next ↔ next own :=
  Iff.rfl

@[simp] theorem checks_switch_cons : (switch (p :: ps)).Checks rank k own next ↔
    p.Checks rank k own (· = own) ∧ (switch ps).Checks rank k own (· = own) ∧ next own := Iff.rfl

theorem balanced_iff : p.Balanced rank k ↔ p.Checks rank k [] (· = []) := Iff.rfl

theorem checks_switch (h : ∀ p ∈ ps, p.Balanced rank k) :
    (switch ps).Checks rank k [] next ↔ next [] := by
  induction ps generalizing next with
  | nil => rfl
  | cons p ps ih =>
    rw [checks_switch_cons, ih fun q hq => h q (List.mem_cons_of_mem _ hq)]
    simp [← balanced_iff, h p List.mem_cons_self]

omit [DecidableEq L] in
@[simp] theorem level_nil : level rank k [] = k := rfl

omit [DecidableEq L] in
@[simp] theorem level_cons : level rank k ((l, shared) :: own) =
    max (rank l + 1) (level rank k own) := rfl

end Checks

variable {rank} {k : ℕ} {p : LockProg L A} {own held : List (L × Bool)}
  {next : List (L × Bool) → Prop} {ops : List (LockOp L)} {r : Bool}

omit [DecidableEq L] in
theorem le_level : k ≤ level rank k own := by
  induction own with
  | nil => exact Nat.le_refl k
  | cons h own ih => exact Nat.le_trans ih (Nat.le_max_right _ _)

omit [DecidableEq L] in
theorem lt_level (hheld : ∀ h ∈ held, rank h.1 < k) :
    ∀ h ∈ own ++ held, rank h.1 < level rank k own := by
  intro h hmem
  rcases List.mem_append.mp hmem with hmem | hmem
  · induction own with
    | nil => exact nomatch hmem
    | cons h' own ih =>
      rcases List.mem_cons.mp hmem with rfl | hmem
      · exact Nat.le_max_left _ _
      · exact Nat.lt_of_lt_of_le (ih (List.mem_append_left _ hmem) hmem) (Nat.le_max_right _ _)
  · exact Nat.lt_of_lt_of_le (hheld h hmem) le_level

/-- The check covers every path. -/
theorem Checks.path (h : p.Checks rank k own next) (hheld : ∀ h ∈ held, rank h.1 < k)
    (hpath : Path p ops r) :
    Ordered rank (own ++ held) ops ∧
      if r then heldAfter (own ++ held) ops = held
      else ∃ own', next own' ∧ heldAfter (own ++ held) ops = own' ++ held := by
  induction hpath generalizing k own held next with
  | skip => exact ⟨trivial, own, h, rfl⟩
  | @acquire l shared =>
    refine ⟨⟨fun x hx => ?_, trivial⟩, _, h.2, rfl⟩
    exact Nat.lt_of_lt_of_le (lt_level hheld x hx) h.1
  | @release l =>
    obtain ⟨⟨shared, hmem⟩, hnext⟩ := h
    refine ⟨⟨⟨shared, List.mem_append_left _ hmem⟩, trivial⟩, _, hnext, ?_⟩
    exact List.eraseP_append_left (p := fun h => decide (h.1 = l)) (decide_eq_true rfl) _ hmem
  | ret =>
    obtain rfl : own = [] := h
    exact ⟨trivial, rfl⟩
  | seq_ret _ ih =>
    obtain ⟨hp, hend⟩ := ih h hheld
    exact ⟨hp, hend⟩
  | seq _ _ ihp ihq =>
    obtain ⟨hp, own', hq, hafter⟩ := ihp h hheld
    obtain ⟨hq, hend⟩ := ihq hq hheld
    rw [← hafter] at hq hend
    refine ⟨ordered_append.mpr ⟨hp, hq⟩, ?_⟩
    rw [heldAfter_append]
    exact hend
  | @alt_left p q ops r _ ih =>
    obtain ⟨hp, hend⟩ := ih h.1 hheld
    refine ⟨hp, ?_⟩
    cases r with
    | true => exact hend
    | false =>
      obtain ⟨_, rfl, hend⟩ := hend
      exact ⟨_, h.2.2, hend⟩
  | @alt_right p q ops r _ ih =>
    obtain ⟨hp, hend⟩ := ih h.2.1 hheld
    refine ⟨hp, ?_⟩
    cases r with
    | true => exact hend
    | false =>
      obtain ⟨_, rfl, hend⟩ := hend
      exact ⟨_, h.2.2, hend⟩
  | loop_done => exact ⟨trivial, own, h.2, rfl⟩
  | loop_ret _ ih =>
    obtain ⟨hp, hend⟩ := ih h.1 hheld
    exact ⟨hp, hend⟩
  | loop_next _ _ ihp ihloop =>
    obtain ⟨hp, _, rfl, hafter⟩ := ihp h.1 hheld
    obtain ⟨hloop, hend⟩ := ihloop h hheld
    rw [← hafter] at hloop hend
    refine ⟨ordered_append.mpr ⟨hp, hloop⟩, ?_⟩
    rw [heldAfter_append]
    exact hend
  | pick a _ ih => exact ih (h a) hheld
  | @call p ops r _ ih =>
    -- The callee holds nothing of its own, and all its callers' locks are below its level.
    obtain ⟨hp, hend⟩ := ih h.1 (lt_level hheld)
    refine ⟨hp, own, h.2, ?_⟩
    cases r with
    | true => exact hend
    | false =>
      obtain ⟨_, rfl, hend⟩ := hend
      exact hend

/-- On every path a balanced function takes its locks in order, and releases all of them. -/
theorem Balanced.path (h : p.Balanced rank k) (hpath : Path p ops r) :
    Ordered rank [] ops ∧ heldAfter [] ops = [] := by
  have hheld : ∀ l ∈ ([] : List (L × Bool)), rank l.1 < k := nofun
  obtain ⟨hordered, hend⟩ := Checks.path h hheld hpath
  refine ⟨hordered, ?_⟩
  cases r with
  | true => exact hend
  | false =>
    obtain ⟨_, rfl, hend⟩ := hend
    exact hend

end LockProg

end ChatServer.Library
