import Mathlib.Data.Rat.Defs
import ChatServer.Core.Text

/-! # The environment of a step

What one step of the server reads from outside its own state: the clocks, the
random generators, the allocator, the digest of the crypto library, and the
outcome of every SQL statement it issues.
-/

namespace ChatServer

abbrev RoomPtr := ℕ
abbrev ClientPtr := ℕ
abbrev Fd := ℤ

/-- A reading of the monotonic clock. -/
structure Timespec where
  sec : ℤ
  nsec : ℤ
  deriving DecidableEq, Repr

/-- The seconds from one reading to another. -/
def Timespec.elapsed (now last : Timespec) : ℚ :=
  (now.sec - last.sec : ℤ) + (now.nsec - last.nsec : ℤ) / 1000000000

/-- The statements the server issues, one for each function that issues one. -/
inductive Stmt where
  | saveMessage | loadHistory | loadHistoryBefore | editMessage | deleteMessage
  | registerUser | verifyUser | userExists
  | createSession | validateSession | deleteSession | cleanupExpiredSessions | listSessions
  | createRoom | markRead | blockAdd | blockRemove | muteAdd | muteRemove | banAdd | banCheck
  | setRole | getRole | inviteCreate | inviteAccept | inviteFind
  deriving DecidableEq, Repr

/--
The outcome of a statement. It runs to its end, or the handle or the statement
cannot be prepared, or a step fails after some result rows were delivered.
-/
inductive Sql where
  | done
  | prepareFailed
  | stepFailed (rows : ℕ)
  deriving DecidableEq, Repr

/-- The result rows the program sees of those the statement selects. -/
def Sql.rows {α : Type*} : Sql → List α → List α
  | done, l => l
  | prepareFailed, _ => []
  | stepFailed n, l => l.take n

@[simp] theorem Sql.rows_done {α : Type*} (l : List α) : Sql.done.rows l = l := rfl

theorem Sql.rows_sublist {α : Type*} (o : Sql) (l : List α) : (o.rows l).Sublist l := by
  cases o with
  | done => exact .refl _
  | prepareFailed => exact List.nil_sublist _
  | stepFailed n => exact List.take_sublist _ _

theorem Sql.mem_of_mem_rows {α : Type*} {o : Sql} {l : List α} {x : α} (h : x ∈ o.rows l) :
    x ∈ l := (o.rows_sublist l).subset h

/--
The inputs of a step. `tokens` are the successive results of `RAND_bytes` in
hexadecimal, the generator failing when they run out. `roomMem` and `clientMem`
are the addresses the allocator returns, `none` for a failed allocation.
`rowsMem` tells if it has room for the rows that a new room loads, `membersMem`
and `historyMem` if it has for the two arrays of a room made at startup.
-/
structure Env where
  now : ℤ
  monotonic : Timespec
  rand : ℕ
  tokens : List Text
  sha256Hex : Text → Text
  sql : Stmt → Sql
  rowidGap : ℕ
  roomMem : Option RoomPtr
  rowsMem : Bool
  membersMem : Bool
  historyMem : Bool
  clientMem : Option ClientPtr
  now_pos : 0 < now

/-- An environment in which nothing fails: the next addresses and the next token are given. -/
def Env.calm (roomMem : RoomPtr) (clientMem : ClientPtr) (token : Text) : Env where
  now := 1
  monotonic := ⟨0, 0⟩
  rand := 0
  tokens := [token]
  sha256Hex := id
  sql := fun _ => .done
  rowidGap := 0
  roomMem := some roomMem
  rowsMem := true
  membersMem := true
  historyMem := true
  clientMem := some clientMem
  now_pos := by decide

end ChatServer
