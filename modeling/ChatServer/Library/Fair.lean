import Mathlib.Order.WellFounded
import ChatServer.Library.Run

/-! # Fair runs

An infinite run takes one input after the other. It is fair to a party that can
help if this party gets a turn then or later. What the helping parties bring
nearer, measured along a well-founded order, comes about on every fair run.
-/

namespace ChatServer.Library

variable {σ ε π α : Type*} (step : σ → ε → σ)

/-- The states of an infinite run. -/
def states (s : σ) (es : ℕ → ε) : ℕ → σ
  | 0 => s
  | n + 1 => step (states s es n) (es n)

/-- Whenever a party can help, it has a turn then or later. -/
def Fair (turn : ε → π → Prop) (helps : σ → π → Prop) (s : σ) (es : ℕ → ε) : Prop :=
  ∀ n p, helps (states step s es n) p → ∃ m, n ≤ m ∧ turn (es m) p

variable {step} {s : σ} {es : ℕ → ε}

theorem states_eq_run (n : ℕ) : states step s es n = run step s ((List.range n).map es) := by
  induction n with
  | zero => rfl
  | succ n ih => rw [List.range_succ, List.map_append, List.map_singleton, run_concat, ← ih, states]

theorem states_invariant {I : σ → Prop} (h : ∀ s e, I s → I (step s e)) (hs : I s) (n : ℕ) :
    I (states step s es n) := by
  rw [states_eq_run]
  exact run_invariant h hs _

theorem states_rel {R : σ → σ → Prop} (hrefl : ∀ s, R s s) (htrans : ∀ s t u, R s t → R t u → R s u)
    (h : ∀ s e, R s (step s e)) {n m : ℕ} (hnm : n ≤ m) :
    R (states step s es n) (states step s es m) := by
  induction m, hnm using Nat.le_induction with
  | base => exact hrefl _
  | succ m _ ih => exact htrans _ _ _ ih (h _ _)

/--
The rule of the helping parties. While the goal is not reached some party
helps, its turn brings the goal nearer, and every other turn brings it nearer
or leaves the party helping.
-/
theorem Fair.leadsTo {turn : ε → π → Prop} {helps : σ → π → Prop} [Preorder α] [WellFoundedLT α]
    (μ : σ → π → α) {P Q : σ → Prop} (hfair : Fair step turn helps s es)
    (hhelp : ∀ s, P s → ∃ p, helps s p)
    (hstep : ∀ s e p, P s → helps s p → Q (step s e) ∨ (P (step s e) ∧
      ((∃ q, helps (step s e) q ∧ μ (step s e) q < μ s p) ∨
        (helps (step s e) p ∧ μ (step s e) p = μ s p ∧ ¬ turn e p))))
    {n : ℕ} (hP : P (states step s es n)) : ∃ m, n ≤ m ∧ Q (states step s es m) := by
  obtain ⟨p, hp⟩ := hhelp _ hP
  induction hx : μ (states step s es n) p using WellFoundedLT.induction generalizing n p with
  | ind x nearer =>
    obtain ⟨m, hnm, hturn⟩ := hfair n p hp
    -- until the turn of `p`, the party keeps helping and the measure stays
    induction hd : m - n generalizing n with
    | zero =>
      obtain rfl : n = m := by omega
      rcases hstep _ (es n) p hP hp with hQ | ⟨hP', ⟨q, hq, hlt⟩ | ⟨-, -, hnot⟩⟩
      · exact ⟨n + 1, Nat.le_succ n, hQ⟩
      · obtain ⟨k, hk, hQ⟩ := nearer _ (hx ▸ hlt) (n := n + 1) hP' q hq rfl
        exact ⟨k, by omega, hQ⟩
      · exact absurd hturn hnot
    | succ d wait =>
      rcases hstep _ (es n) p hP hp with hQ | ⟨hP', ⟨q, hq, hlt⟩ | ⟨hp', hsame, -⟩⟩
      · exact ⟨n + 1, Nat.le_succ n, hQ⟩
      · obtain ⟨k, hk, hQ⟩ := nearer _ (hx ▸ hlt) (n := n + 1) hP' q hq rfl
        exact ⟨k, by omega, hQ⟩
      · obtain ⟨k, hk, hQ⟩ := wait (n := n + 1) hP' hp' (hsame.trans hx) (by omega) (by omega)
        exact ⟨k, by omega, hQ⟩

end ChatServer.Library
