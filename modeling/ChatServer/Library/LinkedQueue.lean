import Mathlib.Data.List.Nodup
import Mathlib.Logic.Function.Basic
import Mathlib.Tactic.Common

/-! # Linked queues

A queue kept as nodes on a heap, each with the address of the next, and two
pointers: to the first node and to the last. The nodes stand for a list; a new
node is linked behind the last one and the first one is unlinked.
-/

namespace ChatServer.Library

/-- A node: a value, and the address of the next node. -/
structure Node (P α : Type*) where
  val : α
  next : Option P
  deriving DecidableEq, Repr

variable {P α : Type*} {heap heap' : P → Option (Node P α)} {head tail : Option P}
  {l : List (P × α)} {p t : P} {x : α} {next : Option P}

/-- From a pointer, the nodes of a list are linked one to the next, and the last to none. -/
def Chain (heap : P → Option (Node P α)) : Option P → List (P × α) → Prop
  | ptr, [] => ptr = none
  | ptr, (p, x) :: l => ptr = some p ∧ ∃ next, heap p = some ⟨x, next⟩ ∧ Chain heap next l

theorem Chain.congr (h : Chain heap head l) (hl : ∀ p ∈ l.map Prod.fst, heap' p = heap p) :
    Chain heap' head l := by
  induction l generalizing head with
  | nil => exact h
  | cons a l ih =>
    obtain ⟨rfl, next, hp, hc⟩ := h
    refine ⟨rfl, next, ?_, ih hc fun p hp => hl p (List.mem_cons_of_mem _ hp)⟩
    rw [hl a.1 List.mem_cons_self, hp]

theorem Chain.eq_none_iff (h : Chain heap head l) : head = none ↔ l = [] := by
  cases l with
  | nil => exact ⟨fun _ => rfl, fun _ => h⟩
  | cons a l => simp [h.1]

theorem Chain.mem (h : Chain heap head l) (hp : p ∈ l.map Prod.fst) : heap p ≠ none := by
  induction l generalizing head with
  | nil => cases hp
  | cons a l ih =>
    obtain ⟨-, next, ha, hc⟩ := h
    rcases List.mem_cons.mp hp with rfl | hp
    · rw [ha]
      exact Option.some_ne_none _
    · exact ih hc hp

/-- The nodes between two pointers are those of a list, and its addresses are distinct. -/
structure Linked (heap : P → Option (Node P α)) (head tail : Option P) (l : List (P × α)) :
    Prop where
  chain : Chain heap head l
  nodup : (l.map Prod.fst).Nodup
  tail_eq : tail = (l.map Prod.fst).getLast?

namespace Linked

theorem nil : Linked heap none none [] := ⟨rfl, List.nodup_nil, rfl⟩

theorem congr (h : Linked heap head tail l) (hl : ∀ p ∈ l.map Prod.fst, heap' p = heap p) :
    Linked heap' head tail l := ⟨h.chain.congr hl, h.nodup, h.tail_eq⟩

theorem head_eq_none_iff (h : Linked heap head tail l) : head = none ↔ l = [] :=
  h.chain.eq_none_iff

theorem tail_eq_none_iff (h : Linked heap head tail l) : tail = none ↔ head = none := by
  rw [h.tail_eq, h.head_eq_none_iff, List.getLast?_eq_none_iff, List.map_eq_nil_iff]

theorem pop (h : Linked heap (some p) tail l) (hp : heap p = some ⟨x, next⟩) :
    ∃ l', l = (p, x) :: l' ∧ p ∉ l'.map Prod.fst ∧
      Linked heap next (if next = none then none else tail) l' := by
  obtain ⟨hc, hn, ht⟩ := h
  cases l with
  | nil => cases hc
  | cons a l' =>
    obtain ⟨q, y⟩ := a
    obtain ⟨hq, next', hy, hc'⟩ := hc
    obtain rfl := Option.some.inj hq
    rw [hp] at hy
    obtain ⟨rfl, rfl⟩ := Node.mk.inj (Option.some.inj hy)
    obtain ⟨hnot, hn'⟩ := List.nodup_cons.mp hn
    refine ⟨l', rfl, hnot, hc', hn', ?_⟩
    cases l' with
    | nil => exact if_pos hc'
    | cons b l'' =>
      rw [if_neg (by rw [hc'.1]; exact Option.some_ne_none _), ht]
      exact List.getLast?_cons_cons

end Linked

section Push

variable [DecidableEq P]

/-- Write the next pointer of a node. -/
def setNext (heap : P → Option (Node P α)) (t : P) (next : Option P) : P → Option (Node P α) :=
  Function.update heap t ((heap t).map fun node => { node with next })

/-- Make a node the next of the last one, if there is one. -/
def linkLast (heap : P → Option (Node P α)) (tail : Option P) (p : P) : P → Option (Node P α) :=
  match tail with
  | none => heap
  | some t => setNext heap t (some p)

theorem setNext_of_ne (h : p ≠ t) : setNext heap t next p = heap p := Function.update_of_ne h _ _

theorem setNext_self (h : heap t = some ⟨x, none⟩) : setNext heap t next t = some ⟨x, next⟩ := by
  rw [setNext, Function.update_self, h]
  rfl

theorem Chain.push (h : Chain heap head l) (hn : (l.map Prod.fst).Nodup)
    (ht : (l.map Prod.fst).getLast? = some t) (hp : heap p = some ⟨x, none⟩)
    (hnew : p ∉ l.map Prod.fst) : Chain (setNext heap t (some p)) head (l ++ [(p, x)]) := by
  induction l generalizing head with
  | nil => cases ht
  | cons a l ih =>
    obtain ⟨q, y⟩ := a
    obtain ⟨rfl, next, hq, hc⟩ := h
    obtain ⟨hqp, hnew'⟩ := not_or.mp (List.mem_cons.not.mp hnew)
    cases l with
    | nil =>
      obtain rfl : q = t := by simpa using ht
      obtain rfl : next = none := hc
      refine ⟨rfl, some p, setNext_self hq, rfl, none, ?_, rfl⟩
      rw [setNext_of_ne hqp, hp]
    | cons b l' =>
      have ht' : ((b :: l').map Prod.fst).getLast? = some t := by
        rw [← ht]
        exact List.getLast?_cons_cons.symm
      obtain ⟨hqn, hn'⟩ := List.nodup_cons.mp hn
      have hqt : q ≠ t := by
        rintro rfl
        exact hqn (List.mem_of_getLast? ht')
      exact ⟨rfl, next, by rw [setNext_of_ne hqt, hq], ih hc hn' ht' hnew'⟩

theorem Linked.push (h : Linked heap head tail l) (hp : heap p = some ⟨x, none⟩)
    (hnew : p ∉ l.map Prod.fst) :
    Linked (linkLast heap tail p) (if tail = none then some p else head) (some p)
      (l ++ [(p, x)]) := by
  have hnodup : ((l ++ [(p, x)]).map Prod.fst).Nodup := by
    rw [List.map_append]
    exact List.nodup_append.mpr ⟨h.nodup, List.nodup_singleton _, by
      rintro a ha b hb rfl
      obtain rfl : a = p := List.mem_singleton.mp hb
      exact hnew ha⟩
  refine ⟨?_, hnodup, by simp⟩
  cases tail with
  | none =>
    obtain rfl := h.head_eq_none_iff.mp (h.tail_eq_none_iff.mp rfl)
    exact ⟨if_pos rfl, none, hp, rfl⟩
  | some t =>
    rw [if_neg (Option.some_ne_none t)]
    exact h.chain.push h.nodup h.tail_eq.symm hp hnew

end Push

end ChatServer.Library
