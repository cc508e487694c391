import ChatServer.Core.Env
import ChatServer.Protocol.Words

/-! # Typing indicators

The table of typing states, one entry a user, that is never emptied and has
room for a fixed number of users.
-/

namespace ChatServer

structure TypingState where
  username : Text
  active : Bool
  lastTypedAt : ℤ
  startedAt : ℤ
  deriving DecidableEq, Repr

def maxTypingUsers : ℕ := 256
def typingDebounceSec : ℤ := 3
def typingRateLimitSec : ℤ := 2

/-- `find_typing_state`: the index of the user's entry, created if there is room. -/
def findTypingState (username : Text) (states : List TypingState) :
    Option ℕ × List TypingState :=
  match states.findIdx? fun s => s.username = username with
  | some i => (some i, states)
  | none =>
    if states.length < maxTypingUsers then
      (some states.length, states ++ [⟨strncpy maxUsernameLen username, false, 0, 0⟩])
    else (none, states)

variable (env : Env)

/-- `presence_typing_start`, with the decision to broadcast. -/
def presenceTypingStart (username : Text) (states : List TypingState) :
    Bool × List TypingState :=
  match findTypingState username states with
  | (none, states) => (false, states)
  | (some i, states) =>
    match states[i]? with
    | none => (false, states)
    | some s =>
      if !s.active ∨ typingRateLimitSec ≤ env.now - s.lastTypedAt then
        (true, states.set i
          { s with
            active := true
            lastTypedAt := env.now
            startedAt := if s.startedAt = 0 then env.now else s.startedAt })
      else (false, states)

def presenceTypingStop (username : Text) (states : List TypingState) : List TypingState :=
  match findTypingState username states with
  | (none, states) => states
  | (some i, states) => states.modify i fun s => { s with active := false, startedAt := 0 }

/-- `presence_is_typing`, which may create an entry. -/
def presenceIsTyping (username : Text) (states : List TypingState) : Bool × List TypingState :=
  match findTypingState username states with
  | (none, states) => (false, states)
  | (some i, states) => ((states[i]?.map TypingState.active).getD false, states)

/-- `presence_cleanup_stale`. -/
def presenceCleanupStale (states : List TypingState) : List TypingState :=
  states.map fun s =>
    if s.active ∧ typingDebounceSec ≤ env.now - s.startedAt then
      { s with active := false, startedAt := 0 }
    else s

end ChatServer
