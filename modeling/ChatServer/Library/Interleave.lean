import Mathlib.Logic.Function.Basic
import ChatServer.Library.Run

/-! # Interleaved threads

Any number of threads act on a shared state, each with a local state of its
own. One step lets one thread act; a schedule is a list of threads, each with
the input of its act.
-/

namespace ChatServer.Library

/-- A shared state, and the local state of each thread. -/
structure Threads (ι σ τ : Type*) where
  shared : σ
  loc : ι → τ

namespace Threads

variable {ι σ τ ε : Type*} [DecidableEq ι] (act : ι → σ × τ → ε → σ × τ)

/-- One act of one thread. -/
def step (s : Threads ι σ τ) (input : ι × ε) : Threads ι σ τ where
  shared := (act input.1 (s.shared, s.loc input.1) input.2).1
  loc := Function.update s.loc input.1 (act input.1 (s.shared, s.loc input.1) input.2).2

variable {act} {s : Threads ι σ τ} {i j : ι} {e : ε}

@[simp] theorem step_shared :
    (step act s (i, e)).shared = (act i (s.shared, s.loc i) e).1 := rfl

@[simp] theorem step_loc_self : (step act s (i, e)).loc i = (act i (s.shared, s.loc i) e).2 :=
  Function.update_self ..

theorem step_loc_of_ne (h : j ≠ i) : (step act s (i, e)).loc j = s.loc j :=
  Function.update_of_ne h _ _

omit [DecidableEq ι] in
theorem exists_loc_iff {s' : Threads ι σ τ} {p : τ → Prop}
    (hothers : ∀ j, j ≠ i → s'.loc j = s.loc j) (hi : p (s'.loc i) ↔ p (s.loc i)) :
    (∃ j, p (s'.loc j)) ↔ ∃ j, p (s.loc j) := by
  refine exists_congr fun j => ?_
  rcases eq_or_ne j i with rfl | hne
  · exact hi
  · rw [hothers j hne]

variable (act) in
/-- A thread that runs alone runs as its own acts. -/
theorem run_solo (i : ι) (s : Threads ι σ τ) (es : List ε) :
    let t := run (step act) s (es.map (i, ·))
    (t.shared, t.loc i) = run (act i) (s.shared, s.loc i) es := by
  induction es generalizing s with
  | nil => rfl
  | cons e es ih => simpa using ih (step act s (i, e))

/-- Local states that no act of their thread leaves are kept whatever the others do. -/
theorem loc_closed {D : τ → Prop} (h : ∀ x l e, D l → D (act i (x, l) e).2)
    (hs : D (s.loc i)) (inputs : List (ι × ε)) : D ((run (step act) s inputs).loc i) := by
  refine run_invariant (I := fun s : Threads ι σ τ => D (s.loc i)) ?_ hs inputs
  rintro s ⟨j, e⟩ hd
  rcases eq_or_ne i j with rfl | hne
  · rw [step_loc_self]
    exact h s.shared (s.loc i) e hd
  · rwa [step_loc_of_ne hne]

end Threads

end ChatServer.Library
