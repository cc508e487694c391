import Mathlib.Data.List.Basic
import Mathlib.Tactic.Common

/-! # Programs that read a shared pointer

A program tests a pointer for null once and then reads it again each time it
uses it, also to find the lock it releases. Other threads may set the pointer to
null. If they do so only while the program does not go on to read it without
another test, then the program never uses a null pointer and releases its locks.
-/

namespace ChatServer.Library

/-- What a program does with a shared pointer. Each statement but a store reads it anew. -/
inductive PointerProg where
  | done
  | test (null nonNull : PointerProg)
  | use (deref : Bool) (next : PointerProg)
  | lock (next : PointerProg)
  | unlock (next : PointerProg)
  | store (next : PointerProg)
  | clear (next : PointerProg)
  | choose (p q : PointerProg)
  deriving DecidableEq

namespace PointerProg

/-- The program may read the pointer again before it tests it or stores to it. -/
def rereads : PointerProg → Bool
  | done => false
  | test _ _ => false
  | use _ _ => true
  | lock _ => true
  | unlock _ => true
  | store _ => false
  | clear _ => false
  | choose p q => p.rereads || q.rereads

/--
The check of a program that is alone with the pointer: it uses the pointer only
where it knows that it is not null, and it ends without the lock.
-/
def checks : Bool → Bool → PointerProg → Bool
  | _, locked, done => !locked
  | _, locked, test null nonNull => !locked && null.checks false false && nonNull.checks true false
  | known, locked, use _ next => known && next.checks known locked
  | known, locked, lock next => known && !locked && next.checks known true
  | known, locked, unlock next => known && locked && next.checks known false
  | _, locked, store next => !locked && next.checks true false
  | _, locked, clear next => !locked && next.checks false false
  | known, locked, choose p q => p.checks known locked && q.checks known locked

variable {p : PointerProg} {known : Bool}

/-- A program that holds the lock reads the pointer again, to release it. -/
theorem rereads_of_locked (h : p.checks known true = true) : p.rereads = true := by
  induction p with
  | choose p q ihp ihq => simp_all [checks, rereads]
  | use deref next ih => rfl
  | lock next ih => rfl
  | unlock next ih => rfl
  | _ => simp [checks] at h

theorem checks_unknown (h : p.checks known false = true) (hp : p.rereads = false) :
    p.checks false false = true := by
  induction p with
  | choose p q ihp ihq => simp_all [checks, rereads]
  | use deref next ih => simp [rereads] at hp
  | lock next ih => simp [rereads] at hp
  | unlock next ih => simp [rereads] at hp
  | _ => exact h

end PointerProg

/-- A thread in a program, with the pointer it shares and the locks it holds. -/
structure PointerThread (α : Type*) where
  pointer : Option α
  held : List α
  rest : PointerProg
  nullUsed : Bool
  deriving DecidableEq

namespace PointerThread

variable {α : Type*} [DecidableEq α]

/-- The end of a thread that follows a null pointer. -/
def crash (s : PointerThread α) : PointerThread α := { s with rest := .done, nullUsed := true }

/-- One statement. The branch and the value stored are given. -/
def step (s : PointerThread α) (branch : Bool) (value : α) : PointerThread α :=
  match s.rest, s.pointer with
  | .done, _ => s
  | .test null _, none => { s with rest := null }
  | .test _ nonNull, some _ => { s with rest := nonNull }
  | .use true _, none => s.crash
  | .use false next, none => { s with rest := next, nullUsed := true }
  | .use _ next, some _ => { s with rest := next }
  | .lock _, none => s.crash
  | .lock next, some a => { s with rest := next, held := a :: s.held }
  | .unlock _, none => s.crash
  | .unlock next, some a => { s with rest := next, held := s.held.erase a }
  | .store next, _ => { s with rest := next, pointer := some value }
  | .clear next, _ => { s with rest := next, pointer := none }
  | .choose p q, _ => { s with rest := if branch then p else q }

/-- The thread has used no null pointer, and knows enough of it for the rest of its program. -/
structure Sound (s : PointerThread α) : Prop where
  nullUsed : s.nullUsed = false
  checked : ∃ known locked, s.rest.checks known locked = true ∧ (known = true → s.pointer ≠ none) ∧
    if locked then ∃ a, s.pointer = some a ∧ s.held = [a] else s.held = []

variable {s : PointerThread α} {branch : Bool} {value : α}

theorem Sound.step (h : Sound s) (branch : Bool) (value : α) : Sound (s.step branch value) := by
  obtain ⟨pointer, held, rest, nullUsed⟩ := s
  obtain ⟨hnull, known, locked, hchecks, hknown, hheld⟩ := h
  simp only at hnull hchecks hknown hheld
  cases rest with
  | done => exact ⟨hnull, known, locked, hchecks, hknown, hheld⟩
  | test null nonNull =>
    simp only [PointerProg.checks, Bool.and_eq_true, Bool.not_eq_true'] at hchecks
    obtain ⟨⟨rfl, hisNull⟩, hnonNull⟩ := hchecks
    cases pointer with
    | none => exact ⟨hnull, false, false, hisNull, nofun, hheld⟩
    | some a => exact ⟨hnull, true, false, hnonNull, fun _ => nofun, hheld⟩
  | use deref next =>
    simp only [PointerProg.checks, Bool.and_eq_true] at hchecks
    obtain ⟨a, rfl⟩ := Option.ne_none_iff_exists'.mp (hknown hchecks.1)
    cases deref <;> exact ⟨hnull, known, locked, hchecks.2, hknown, hheld⟩
  | lock next =>
    simp only [PointerProg.checks, Bool.and_eq_true, Bool.not_eq_true'] at hchecks
    obtain ⟨⟨hk, rfl⟩, hnext⟩ := hchecks
    obtain ⟨a, rfl⟩ := Option.ne_none_iff_exists'.mp (hknown hk)
    obtain rfl : held = [] := hheld
    exact ⟨hnull, known, true, hnext, hknown, a, rfl, rfl⟩
  | unlock next =>
    simp only [PointerProg.checks, Bool.and_eq_true] at hchecks
    obtain ⟨⟨hk, rfl⟩, hnext⟩ := hchecks
    obtain ⟨a, rfl, rfl⟩ := hheld
    exact ⟨hnull, known, false, hnext, hknown, List.erase_cons_head a []⟩
  | store next =>
    simp only [PointerProg.checks, Bool.and_eq_true, Bool.not_eq_true'] at hchecks
    obtain ⟨rfl, hnext⟩ := hchecks
    exact ⟨hnull, true, false, hnext, fun _ => nofun, hheld⟩
  | clear next =>
    simp only [PointerProg.checks, Bool.and_eq_true, Bool.not_eq_true'] at hchecks
    obtain ⟨rfl, hnext⟩ := hchecks
    exact ⟨hnull, false, false, hnext, nofun, hheld⟩
  | choose p q =>
    simp only [PointerProg.checks, Bool.and_eq_true] at hchecks
    refine ⟨hnull, known, locked, ?_, hknown, hheld⟩
    cases branch with
    | true => exact hchecks.1
    | false => exact hchecks.2

omit [DecidableEq α] in
/-- Another thread sets the pointer to null while the program does not read it again. -/
theorem Sound.clear (h : Sound s) (hrest : s.rest.rereads = false) :
    Sound { s with pointer := none } := by
  obtain ⟨hnull, known, locked, hchecks, -, hheld⟩ := h
  cases locked with
  | true =>
    rw [PointerProg.rereads_of_locked hchecks] at hrest
    exact absurd hrest (by decide)
  | false => exact ⟨hnull, false, false, PointerProg.checks_unknown hchecks hrest, nofun, hheld⟩

omit [DecidableEq α] in
theorem Sound.held_eq_nil (h : Sound s) (hrest : s.rest = .done) : s.held = [] := by
  obtain ⟨-, known, locked, hchecks, -, hheld⟩ := h
  rw [hrest] at hchecks
  cases locked with
  | true => exact absurd hchecks (by simp [PointerProg.checks])
  | false => exact hheld

/-- The steps of a thread that runs alone, each with its branch and the value stored. -/
def steps (s : PointerThread α) (inputs : List (Bool × α)) : PointerThread α :=
  inputs.foldl (fun s input => s.step input.1 input.2) s

/-- A program that reads a null pointer again can come to use it. -/
theorem exists_nullUsed (hpointer : s.pointer = none) (hrest : s.rest.rereads = true) (value : α) :
    ∃ inputs, (s.steps inputs).nullUsed = true := by
  obtain ⟨pointer, held, rest, nullUsed⟩ := s
  obtain rfl : pointer = none := hpointer
  simp only at hrest
  induction rest with
  | use deref next ih => exact ⟨[(true, value)], by cases deref <;> rfl⟩
  | lock next ih => exact ⟨[(true, value)], rfl⟩
  | unlock next ih => exact ⟨[(true, value)], rfl⟩
  | choose p q ihp ihq =>
    rcases Bool.or_eq_true _ _ |>.mp hrest with hp | hq
    · obtain ⟨inputs, h⟩ := ihp hp
      exact ⟨(true, value) :: inputs, h⟩
    · obtain ⟨inputs, h⟩ := ihq hq
      exact ⟨(false, value) :: inputs, h⟩
  | _ => exact nomatch hrest

end PointerThread

end ChatServer.Library
