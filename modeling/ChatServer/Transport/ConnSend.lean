import Mathlib.Algebra.Order.Ring.Int
import Mathlib.Data.Nat.Notation
import ChatServer.Core.Text

/-! # Sending a buffer

`conn_send` on a plain connection calls `send` until the buffer is out. Each
call has an outcome that the kernel chooses; interrupted and blocked calls are
made again.
-/

namespace ChatServer.Transport

inductive Errno where
  | eintr | eagain | ewouldblock
  | other (code : ℤ)
  deriving DecidableEq, Repr

/-- What a call of `send` does; it accepts no more than it is given. -/
inductive SendOutcome where
  | accepts (n : ℕ) (pos : 0 < n)
  | zero
  | fails (errno : Errno)
  deriving DecidableEq, Repr

/-- A buffer in memory. -/
structure Buffer where
  bytes : List Char
  size_lt : bytes.length < 2 ^ 63

/-- What `conn_send` returns, and the bytes that each of its calls got accepted. -/
structure SendResult where
  returned : ℤ
  accepted : List (List Char)
  deriving DecidableEq, Repr

/-- The conversion `(ssize_t)n`. -/
def ssize (n : ℕ) : ℤ := if n < 2 ^ 63 then n else n - 2 ^ 64

/-- The loop of `conn_send`; `none` if it goes on after the outcomes given. -/
def sendLoop (buf : List Char) (total : ℕ) (accepted : List (List Char)) :
    List SendOutcome → Option SendResult
  | [] => if total < buf.length then none else some ⟨ssize total, accepted⟩
  | outcome :: outcomes =>
    if total < buf.length then
      match outcome with
      | .accepts n _ =>
        let taken := (buf.drop total).take n
        sendLoop buf (total + taken.length) (accepted ++ [taken]) outcomes
      | .zero => some ⟨if ssize total ≠ 0 then ssize total else -1, accepted⟩
      | .fails .eintr => sendLoop buf total accepted outcomes
      | .fails .eagain => sendLoop buf total accepted outcomes
      | .fails .ewouldblock => sendLoop buf total accepted outcomes
      | .fails (.other _) => some ⟨-1, accepted⟩
    else some ⟨ssize total, accepted⟩

/-- `conn_send`; `SSL_write` is that of the connection, if it has one. -/
def connSend (sslWrite : Option (List Char → ℤ)) (buf : Buffer) (outcomes : List SendOutcome) :
    Option SendResult :=
  match sslWrite with
  | some write => some ⟨write buf.bytes, []⟩
  | none => sendLoop buf.bytes 0 [] outcomes

/-- The outcomes after which `send` is called again. -/
def SendOutcome.goesOn : SendOutcome → Bool
  | .accepts _ _ => true
  | .zero => false
  | .fails (.other _) => false
  | .fails _ => true

variable {buf : List Char} {total n : ℕ} {accepted : List (List Char)}
  {outcomes : List SendOutcome} {res : SendResult}

theorem ssize_of_lt (h : n < 2 ^ 63) : ssize n = n := if_pos h

theorem flatten_concat_taken (h : accepted.flatten = buf.take total) :
    (accepted ++ [(buf.drop total).take n]).flatten =
      buf.take (total + ((buf.drop total).take n).length) := by
  have hlen : ∀ l : List Char, l.take (l.take n).length = l.take n := fun l => by
    rw [List.length_take, ← List.take_take, List.take_length]
  rw [List.flatten_concat, h, List.take_add, hlen]

/--
The bytes accepted are those up to some offset; that is returned, or the buffer
is not out and -1 is. It is not out only after an error.
-/
def Sends (buf : List Char) (outcomes : List SendOutcome) (res : SendResult) : Prop :=
  ∃ k ≤ buf.length, res.accepted.flatten = buf.take k ∧
    (res.returned = k ∨ res.returned = -1 ∧ k < buf.length) ∧
    ((∀ outcome ∈ outcomes, outcome.goesOn = true) → k = buf.length)

theorem sends_out (hsize : buf.length < 2 ^ 63) (htotal : total ≤ buf.length)
    (hacc : accepted.flatten = buf.take total) (hout : ¬total < buf.length) :
    Sends buf outcomes ⟨ssize total, accepted⟩ :=
  ⟨total, htotal, hacc, .inl (ssize_of_lt (by omega)), fun _ => by omega⟩

theorem sends_stop {outcome : SendOutcome} {returned : ℤ} (hstop : outcome.goesOn = false)
    (hacc : accepted.flatten = buf.take total) (hlt : total < buf.length)
    (hreturned : returned = total ∨ returned = -1) :
    Sends buf (outcome :: outcomes) ⟨returned, accepted⟩ := by
  refine ⟨total, hlt.le, hacc, hreturned.imp id fun h => ⟨h, hlt⟩, fun hall => ?_⟩
  rw [hall outcome List.mem_cons_self] at hstop
  cases hstop

theorem Sends.cons (h : Sends buf outcomes res) (outcome : SendOutcome) :
    Sends buf (outcome :: outcomes) res := by
  obtain ⟨k, hk, hacc, hreturned, hall⟩ := h
  exact ⟨k, hk, hacc, hreturned, fun h => hall (List.forall_mem_cons.mp h).2⟩

theorem sendLoop_sends (hsize : buf.length < 2 ^ 63) (htotal : total ≤ buf.length)
    (hacc : accepted.flatten = buf.take total)
    (hres : sendLoop buf total accepted outcomes = some res) : Sends buf outcomes res := by
  induction outcomes generalizing total accepted with
  | nil =>
    rw [sendLoop] at hres
    by_cases hlt : total < buf.length
    · rw [if_pos hlt] at hres
      cases hres
    · rw [if_neg hlt] at hres
      obtain rfl := Option.some.inj hres
      exact sends_out hsize htotal hacc hlt
  | cons outcome outcomes ih =>
    unfold sendLoop at hres
    by_cases hlt : total < buf.length
    · rw [if_pos hlt] at hres
      cases outcome with
      | accepts n hn =>
        have hle : total + ((buf.drop total).take n).length ≤ buf.length := by
          simp only [List.length_take, List.length_drop]
          omega
        exact (ih hle (flatten_concat_taken hacc) hres).cons _
      | zero =>
        obtain rfl := Option.some.inj hres
        refine sends_stop rfl hacc hlt ?_
        rw [ssize_of_lt (by omega)]
        split_ifs
        · exact .inl rfl
        · exact .inr rfl
      | fails errno =>
        cases errno with
        | eintr => exact (ih htotal hacc hres).cons _
        | eagain => exact (ih htotal hacc hres).cons _
        | ewouldblock => exact (ih htotal hacc hres).cons _
        | other code =>
          obtain rfl := Option.some.inj hres
          exact sends_stop rfl hacc hlt (.inr rfl)
    · rw [if_neg hlt] at hres
      obtain rfl := Option.some.inj hres
      exact sends_out hsize htotal hacc hlt

def pingBuffer : Buffer := ⟨"PING\n".toList, by decide⟩

/--
What the kernel accepts in all calls together is the start of the buffer; the
length of the buffer is returned when it is out, and otherwise an error or the
length of what was accepted.
-/
theorem connSend_prefix (buf : Buffer) (hpos : 0 < buf.bytes.length)
    (outcomes : List SendOutcome) (res : SendResult)
    (hres : connSend none buf outcomes = some res) :
    res.accepted.flatten <+: buf.bytes ∧
      (res.returned = buf.bytes.length ↔ res.accepted.flatten = buf.bytes) ∧
      (0 ≤ res.returned → res.returned = res.accepted.flatten.length) := by
  obtain ⟨k, hk, hacc, hreturned, -⟩ := sendLoop_sends buf.size_lt (Nat.zero_le _) rfl hres
  have hlen : res.accepted.flatten.length = k := by rw [hacc, List.length_take_of_le hk]
  refine ⟨hacc ▸ List.take_prefix k _, ?_, ?_⟩
  · constructor
    · intro hall
      have hkall : k = buf.bytes.length := by omega
      rw [hacc, hkall, List.take_length]
    · intro hall
      rw [hall] at hlen
      omega
  · intro hnonneg
    omega

theorem connSend_prefix_ping :
    ["PI".toList, "NG\n".toList].flatten <+: pingBuffer.bytes ∧
      ((5 : ℤ) = pingBuffer.bytes.length ↔
        ["PI".toList, "NG\n".toList].flatten = pingBuffer.bytes) ∧
      (0 ≤ (5 : ℤ) → (5 : ℤ) = ["PI".toList, "NG\n".toList].flatten.length) :=
  connSend_prefix pingBuffer (by decide)
    [.fails .eintr, .accepts 2 (by decide), .fails .eagain, .accepts 7 (by decide)]
    ⟨5, ["PI".toList, "NG\n".toList]⟩ (by decide)

theorem connSend_whole {buf : Buffer} (hgo : ∀ outcome ∈ outcomes, outcome.goesOn = true)
    (hres : connSend none buf outcomes = some res) :
    res.accepted.flatten = buf.bytes ∧ res.returned = buf.bytes.length := by
  obtain ⟨k, hk, hacc, hreturned, hall⟩ := sendLoop_sends buf.size_lt (Nat.zero_le _) rfl hres
  have hkall := hall hgo
  rw [hkall, List.take_length] at hacc
  exact ⟨hacc, by omega⟩

end ChatServer.Transport
