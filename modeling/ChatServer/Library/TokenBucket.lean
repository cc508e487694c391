import Mathlib.Algebra.Order.Field.Basic
import Mathlib.Tactic.Linarith
import ChatServer.Library.Run

/-! # Token buckets

A bucket gains tokens at a constant rate up to a cap, lazily at each call, and
a call is accepted if it can pay its cost. What the calls of a run have spent
and what is left never exceed what was there and what has been gained.
-/

namespace ChatServer.Library

/-- The tokens at the last call. -/
structure Bucket (K : Type*) where
  tokens : K
  last : K

namespace Bucket

variable {K : Type*} [Field K] [LinearOrder K] (cap rate cost : K)

/-- The tokens at a time, before a call at that time pays. -/
def filled (b : Bucket K) (t : K) : K := min cap (b.tokens + (t - b.last) * rate)

def call (b : Bucket K) (t : K) : Bool × Bucket K :=
  if b.filled cap rate t < cost then (false, ⟨b.filled cap rate t, t⟩)
  else (true, ⟨b.filled cap rate t - cost, t⟩)

/-- The bucket after calls at some times. -/
def after (b : Bucket K) (ts : List K) : Bucket K :=
  run (fun b t => (b.call cap rate cost t).2) b ts

/-- Which of the calls at some times are accepted. -/
def outcomes (b : Bucket K) : List K → List Bool
  | [] => []
  | t :: ts => (b.call cap rate cost t).1 :: outcomes (b.call cap rate cost t).2 ts

/-- What accepted calls have spent. -/
def spent (oks : List Bool) : K := oks.count true * cost

variable {cap rate cost} {b : Bucket K} {t s : K} {ts : List K}

@[simp] theorem call_last : (b.call cap rate cost t).2.last = t := by
  unfold call
  split_ifs <;> rfl

@[simp] theorem after_cons : b.after cap rate cost (t :: ts) =
    (b.call cap rate cost t).2.after cap rate cost ts := rfl

theorem outcomes_append (ts us : List K) : b.outcomes cap rate cost (ts ++ us) =
    b.outcomes cap rate cost ts ++ (b.after cap rate cost ts).outcomes cap rate cost us := by
  induction ts generalizing b with
  | nil => rfl
  | cons t ts ih => rw [List.cons_append, outcomes, ih, outcomes, after_cons, List.cons_append]

@[simp] theorem outcomes_length : (b.outcomes cap rate cost ts).length = ts.length := by
  induction ts generalizing b with
  | nil => rfl
  | cons t ts ih => rw [outcomes, List.length_cons, ih, List.length_cons]

theorem call_spent (cap rate cost : K) (b : Bucket K) (t : K) :
    (b.call cap rate cost t).2.tokens + spent cost [(b.call cap rate cost t).1] =
      b.filled cap rate t := by
  unfold call spent
  split_ifs <;> simp

variable [IsStrictOrderedRing K]

omit [LinearOrder K] [IsStrictOrderedRing K] in
theorem spent_cons (ok : Bool) (oks : List Bool) :
    spent cost (ok :: oks) = spent cost [ok] + spent cost oks := by
  cases ok <;> simp [spent, add_mul, add_comm]

theorem call_bounds (hcost : 0 ≤ cost) (hcap : 0 ≤ cap) (hrate : 0 ≤ rate) (ht : b.last ≤ t)
    (hb : 0 ≤ b.tokens) : 0 ≤ (b.call cap rate cost t).2.tokens ∧
      (b.call cap rate cost t).2.tokens ≤ cap := by
  have hgain : 0 ≤ (t - b.last) * rate := mul_nonneg (sub_nonneg.mpr ht) hrate
  have hlow : 0 ≤ b.filled cap rate t := le_min hcap (by linarith)
  have hhigh : b.filled cap rate t ≤ cap := min_le_left _ _
  unfold call
  split_ifs with h
  · exact ⟨hlow, hhigh⟩
  · exact ⟨by simpa using h, by simp only; linarith⟩

theorem call_accepted (hcost : cost ≤ cap) (hb : 0 ≤ b.tokens)
    (hwait : cost ≤ (t - b.last) * rate) : (b.call cap rate cost t).1 = true := by
  have hfilled : cost ≤ b.filled cap rate t := le_min hcost (by linarith)
  unfold call
  rw [if_neg (not_lt.mpr hfilled)]

/-- The potential: what is spent and left is at most what was there and was gained. -/
theorem spent_le (hts : (b.last :: ts).IsChain (· ≤ ·)) :
    (b.after cap rate cost ts).tokens + spent cost (b.outcomes cap rate cost ts) ≤
      b.tokens + ((b.after cap rate cost ts).last - b.last) * rate := by
  induction ts generalizing b with
  | nil => simp [after, outcomes, spent]
  | cons t ts ih =>
    obtain ⟨-, hchain⟩ := List.isChain_cons_cons.mp hts
    have hrest := @ih (b.call cap rate cost t).2 (by rwa [call_last])
    have hfirst := call_spent cap rate cost b t
    have hfilled : b.filled cap rate t ≤ b.tokens + (t - b.last) * rate := min_le_right _ _
    rw [after_cons, outcomes, spent_cons]
    rw [call_last] at hrest
    linarith

theorem after_bounds (hcost : 0 ≤ cost) (hcap : 0 ≤ cap) (hrate : 0 ≤ rate)
    (hts : (b.last :: ts).IsChain (· ≤ ·)) (hb : 0 ≤ b.tokens ∧ b.tokens ≤ cap) :
    0 ≤ (b.after cap rate cost ts).tokens ∧ (b.after cap rate cost ts).tokens ≤ cap := by
  induction ts generalizing b with
  | nil => exact hb
  | cons t ts ih =>
    obtain ⟨ht, hchain⟩ := List.isChain_cons_cons.mp hts
    rw [after_cons]
    exact ih (by rwa [call_last]) (call_bounds hcost hcap hrate ht hb.1)

omit [IsStrictOrderedRing K] in
theorem after_last (ts : List K) : (b.after cap rate cost ts).last = ts.getLastD b.last := by
  induction ts generalizing b with
  | nil => rfl
  | cons t ts ih => rw [after_cons, ih, call_last, List.getLastD_cons]

omit [IsStrictOrderedRing K] in
theorem isChain_after {us : List K} (h : (b.last :: (ts ++ us)).IsChain (· ≤ ·)) :
    ((b.after cap rate cost ts).last :: us).IsChain (· ≤ ·) := by
  induction ts generalizing b with
  | nil => exact h
  | cons t ts ih =>
    obtain ⟨-, hchain⟩ := List.isChain_cons_cons.mp h
    rw [after_cons]
    exact ih (by rwa [call_last])

/-- Calls from one time to another spend at most the cap and what is gained in between. -/
theorem spent_le_cap (hcost : 0 ≤ cost) (hcap : 0 ≤ cap) (hrate : 0 ≤ rate)
    (hts : (b.last :: t :: ts).IsChain (· ≤ ·)) (hb : 0 ≤ b.tokens) :
    spent cost (b.outcomes cap rate cost (t :: ts)) ≤ cap + (ts.getLastD t - t) * rate := by
  obtain ⟨ht, hchain⟩ := List.isChain_cons_cons.mp hts
  have hbounds := call_bounds hcost hcap hrate ht hb
  have hchain' : ((b.call cap rate cost t).2.last :: ts).IsChain (· ≤ ·) := by rwa [call_last]
  have hrest := @spent_le K _ _ cap rate cost _ ts _ hchain'
  have hleft := (after_bounds hcost hcap hrate hchain' hbounds).1
  have hfirst := call_spent cap rate cost b t
  have hfilled : b.filled cap rate t ≤ cap := min_le_left _ _
  rw [after_last, call_last] at hrest
  rw [outcomes, spent_cons]
  linarith

end Bucket

end ChatServer.Library
