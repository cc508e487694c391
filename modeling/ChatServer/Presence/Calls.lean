import ChatServer.Library.Keyed
import ChatServer.Library.Run
import ChatServer.Presence.Typing

/-! # Calls on the typing table

What one call does to the entry of its user, and that it does nothing to any
other; the log of a run of calls with their times and results.
-/

namespace ChatServer

open Library

inductive PresenceCall where
  | start (username : Text)
  | stop (username : Text)
  | isTyping (username : Text)
  | cleanup
  deriving DecidableEq, Repr

/-- The user a call is made for. -/
def PresenceCall.user : PresenceCall → Option Text
  | .start username => some username
  | .stop username => some username
  | .isTyping username => some username
  | .cleanup => none

/-- A call on the table; one without a result counts as 0. -/
def presenceCall (env : Env) (call : PresenceCall) (states : List TypingState) :
    Bool × List TypingState :=
  match call with
  | .start username => presenceTypingStart env username states
  | .stop username => (false, presenceTypingStop username states)
  | .isTyping username => presenceIsTyping username states
  | .cleanup => (false, presenceCleanupStale env states)

namespace TypingState

/-- The entry `find_typing_state` creates. -/
def fresh (username : Text) : TypingState := ⟨strncpy maxUsernameLen username, false, 0, 0⟩

def start (now : ℤ) (e : TypingState) : Bool × TypingState :=
  if !e.active ∨ typingRateLimitSec ≤ now - e.lastTypedAt then
    (true, { e with
      active := true
      lastTypedAt := now
      startedAt := if e.startedAt = 0 then now else e.startedAt })
  else (false, e)

def stop (e : TypingState) : TypingState := { e with active := false, startedAt := 0 }

def expire (now : ℤ) (e : TypingState) : TypingState :=
  if e.active ∧ typingDebounceSec ≤ now - e.startedAt then e.stop else e

end TypingState

/-- What a call does to an entry that it is about. -/
def PresenceCall.act (now : ℤ) : PresenceCall → TypingState → Bool × TypingState
  | .start _, e => e.start now
  | .stop _, e => (false, e.stop)
  | .isTyping _, e => (e.active, e)
  | .cleanup, e => (false, e.expire now)

variable {env : Env} {call : PresenceCall} {u v : Text} {states : List TypingState}
  {e : TypingState} {now : ℤ}

/-- The entry of a user. -/
abbrev typingOf (u : Text) (states : List TypingState) : Option TypingState :=
  entryOf TypingState.username u states

@[simp] theorem TypingState.start_username : (e.start now).2.username = e.username := by
  unfold start
  split_ifs <;> rfl

@[simp] theorem TypingState.expire_username : (e.expire now).username = e.username := by
  unfold expire
  split_ifs <;> rfl

@[simp] theorem act_username : (call.act now e).2.username = e.username := by
  cases call <;> simp [PresenceCall.act, TypingState.stop]

theorem fresh_username (hu : u.length < maxUsernameLen) : (TypingState.fresh u).username = u :=
  strncpy_eq_self hu

/-- What a call for a user does: its action goes to one entry, an old or a new one. -/
inductive Called (u : Text) (act : TypingState → Bool × TypingState) (states : List TypingState) :
    Bool × List TypingState → Prop
  | old {e : TypingState} {pre post : List TypingState} (hstates : states = pre ++ e :: post)
      (hpre : ∀ x ∈ pre, x.username ≠ u) (he : e.username = u) :
      Called u act states ((act e).1, pre ++ (act e).2 :: post)
  | new (hnone : typingOf u states = none) (hfree : states.length < maxTypingUsers) :
      Called u act states ((act (.fresh u)).1, states ++ [(act (.fresh u)).2])
  | full (hnone : typingOf u states = none) (hfull : ¬ states.length < maxTypingUsers) :
      Called u act states (false, states)

theorem findTypingState_of_some {pre post : List TypingState}
    (hpre : ∀ x ∈ pre, x.username ≠ u) (he : e.username = u) :
    findTypingState u (pre ++ e :: post) = (some pre.length, pre ++ e :: post) := by
  simp [findTypingState, findIdx?_split hpre he]

theorem findTypingState_of_none (hnone : typingOf u states = none) :
    findTypingState u states = if states.length < maxTypingUsers then
      (some states.length, states ++ [.fresh u]) else (none, states) := by
  simp [findTypingState, findIdx?_of_entryOf_none hnone, TypingState.fresh]

theorem presenceCall_of_found {pre post : List TypingState} (h : call.user = some u)
    (hfind : findTypingState u states = (some pre.length, pre ++ e :: post)) :
    presenceCall env call states =
      ((call.act env.now e).1, pre ++ (call.act env.now e).2 :: post) := by
  cases call with
  | start username =>
    obtain rfl := Option.some.inj h
    by_cases hgo : e.active = false ∨ typingRateLimitSec ≤ env.now - e.lastTypedAt
    · simp [presenceCall, presenceTypingStart, hfind, PresenceCall.act, TypingState.start, hgo]
    · simp [presenceCall, presenceTypingStart, hfind, PresenceCall.act, TypingState.start, hgo]
  | stop username =>
    obtain rfl := Option.some.inj h
    simp [presenceCall, presenceTypingStop, hfind, PresenceCall.act, TypingState.stop,
      modify_split]
  | isTyping username =>
    obtain rfl := Option.some.inj h
    simp [presenceCall, presenceIsTyping, hfind, PresenceCall.act]
  | cleanup => cases h

theorem presenceCall_of_full (h : call.user = some u)
    (hfind : findTypingState u states = (none, states)) :
    presenceCall env call states = (false, states) := by
  cases call with
  | start username =>
    obtain rfl := Option.some.inj h
    simp [presenceCall, presenceTypingStart, hfind]
  | stop username =>
    obtain rfl := Option.some.inj h
    simp [presenceCall, presenceTypingStop, hfind]
  | isTyping username =>
    obtain rfl := Option.some.inj h
    simp [presenceCall, presenceIsTyping, hfind]
  | cleanup => cases h

theorem presenceCall_cases (env : Env) (states : List TypingState) (h : call.user = some u) :
    Called u (call.act env.now) states (presenceCall env call states) := by
  cases hentry : typingOf u states with
  | some e =>
    obtain ⟨pre, post, rfl, hpre, he⟩ := entryOf_split hentry
    rw [presenceCall_of_found h (findTypingState_of_some hpre he)]
    exact .old rfl hpre he
  | none =>
    have hfind := findTypingState_of_none hentry
    split_ifs at hfind with hfree
    · rw [presenceCall_of_found h hfind]
      exact .new hentry hfree
    · rw [presenceCall_of_full h hfind]
      exact .full hentry hfree

/-- The entry a call for a user is about: the user's own, or a new one if there is room. -/
def seatOf (u : Text) (states : List TypingState) : Option TypingState :=
  (typingOf u states).or (if states.length < maxTypingUsers then some (.fresh u) else none)

theorem presenceCall_fst (env : Env) (states : List TypingState) (h : call.user = some u) :
    (presenceCall env call states).1 =
      ((seatOf u states).map fun e => (call.act env.now e).1).getD false := by
  have hcall := presenceCall_cases env states h
  generalize presenceCall env call states = r at hcall
  cases hcall with
  | @old e pre post hstates hpre he =>
    subst hstates
    have hentry : typingOf u (pre ++ e :: post) = some e := by
      rw [typingOf, entryOf_replace hpre he he u, if_pos rfl]
    simp [seatOf, hentry]
  | new hnone hfree => simp [seatOf, hnone, hfree]
  | full hnone hfull => simp [seatOf, hnone, hfull]

theorem typingOf_call (env : Env) (states : List TypingState) (h : call.user = some u)
    (hu : u.length < maxUsernameLen) (v : Text) :
    typingOf v (presenceCall env call states).2 =
      if v = u then (seatOf u states).map fun e => (call.act env.now e).2
      else typingOf v states := by
  have hcall := presenceCall_cases env states h
  generalize presenceCall env call states = r at hcall
  cases hcall with
  | @old e pre post hstates hpre he =>
    subst hstates
    have hentry : typingOf u (pre ++ e :: post) = some e := by
      rw [typingOf, entryOf_replace hpre he he u, if_pos rfl]
    rw [typingOf, entryOf_replace hpre he (act_username.trans he) v]
    simp [seatOf, hentry]
  | new hnone hfree =>
    rw [typingOf, entryOf_concat hnone (act_username.trans (fresh_username hu)) v]
    simp [seatOf, hnone, hfree]
  | full hnone hfull =>
    split_ifs with hv
    · simp [seatOf, hnone, hfull, hv]
    · rfl

theorem names_call (env : Env) (states : List TypingState) (h : call.user = some u)
    (hu : u.length < maxUsernameLen) :
    (presenceCall env call states).2.map TypingState.username =
      states.map TypingState.username ++
        if typingOf u states = none ∧ states.length < maxTypingUsers then [u] else [] := by
  have hcall := presenceCall_cases env states h
  generalize presenceCall env call states = r at hcall
  cases hcall with
  | @old e pre post hstates hpre he =>
    subst hstates
    have hentry : typingOf u (pre ++ e :: post) = some e := by
      rw [typingOf, entryOf_replace hpre he he u, if_pos rfl]
    simp [hentry]
  | new hnone hfree => simp [hnone, hfree, fresh_username hu]
  | full hnone hfull => simp [hfull]

theorem names_cleanup (env : Env) (states : List TypingState) :
    (presenceCall env .cleanup states).2.map TypingState.username =
      states.map TypingState.username := by
  simp [presenceCall, presenceCleanupStale, Function.comp_def, apply_ite]

theorem typingOf_cleanup (env : Env) (states : List TypingState) (v : Text) :
    typingOf v (presenceCall env .cleanup states).2 =
      (typingOf v states).map (TypingState.expire env.now) :=
  entryOf_map (f := TypingState.expire env.now) fun _ => TypingState.expire_username

/-- One call in the log: when it was made, and its result. -/
structure PresenceRecord where
  time : ℤ
  call : PresenceCall
  result : Bool
  deriving DecidableEq, Repr

/-- The table and the calls made since `presence_init`. -/
structure TypingLog where
  states : List TypingState
  log : List PresenceRecord

namespace TypingLog

/-- After `presence_init`. -/
def init : TypingLog := ⟨[], []⟩

def step (s : TypingLog) (input : Env × PresenceCall) : TypingLog :=
  let r := presenceCall input.1 input.2 s.states
  ⟨r.2, s.log ++ [⟨input.1.now, input.2, r.1⟩]⟩

end TypingLog

/-- The calls are made for users, whose names have at most 31 bytes. -/
def CallsForUsers (inputs : List (Env × PresenceCall)) : Prop :=
  ∀ input ∈ inputs, ∀ u, input.2.user = some u → u.length < maxUsernameLen

/-- The calls are made at non-decreasing times. -/
def CallsInOrder (inputs : List (Env × PresenceCall)) : Prop :=
  inputs.Pairwise fun a b => a.1.now ≤ b.1.now

end ChatServer
