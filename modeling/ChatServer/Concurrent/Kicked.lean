import ChatServer.Core.Env
import ChatServer.Library.PointerProg
import ChatServer.Library.Run
import ChatServer.Protocol.Words

/-! # A member who is kicked

A handler tests `me->current_room` and reads it again wherever it uses the room,
while the KICK or the BAN of another client may set it to null. The handlers are
reduced to these reads; their other conditions are left open.
-/

namespace ChatServer

open Library PointerProg

/-- A condition under which the handler breaks out of its command. -/
def refuse (p : PointerProg) : PointerProg := .choose .done p

/-- `room_add_member` makes a test of its own, before `current_room` is set. -/
def enterRoom : PointerProg := .test (refuse (.store .done)) .done

/-- The room is copied, left and set to null. -/
def leaveRoom (next : PointerProg) : PointerProg := .use false (.clear next)

/-- The reads and writes of `current_room` by a command, or by the cleanup of a disconnect. -/
def readsOf : Option CmdType → PointerProg
  | none => .test .done (leaveRoom .done)
  | some .create => refuse enterRoom
  | some .createPrivate => refuse enterRoom
  | some .join =>
    .test (refuse enterRoom)
      (.use false (.choose (.clear (refuse enterRoom)) (refuse enterRoom)))
  | some .accept =>
    refuse (refuse (.test (.test (.store .done) (.store .done))
      (leaveRoom (.test (.store .done) (.store .done)))))
  | some .leave => .test .done (.use false (refuse (.clear .done)))
  | some .kick => .test .done (.use true (refuse (refuse (.use false (refuse (.use false .done))))))
  | some .promote =>
    .test .done (.use true (refuse (refuse (.use false (refuse
      (.use true (.use true (.use false (.use true .done)))))))))
  | some .msg => .test .done (refuse (.use false (.use false (.use true .done))))
  | some .edit => .test .done (refuse (.use false (refuse (.use false (.use true .done)))))
  | some .delete =>
    .test .done (refuse (.use true (.use false (refuse (.use false (.use true .done))))))
  | some .history => .choose (.test .done (.use true .done)) .done
  | some .status => refuse (.test .done (refuse (.use true (.use false .done))))
  | some .who => .test .done (.lock (.use true (.unlock .done)))
  | some .logout => .test .done (leaveRoom .done)
  | some .logoutAll => .test .done (leaveRoom .done)
  | some .read => refuse (.test .done (.use false .done))
  | some .typing => .test .done (refuse (.use false .done))
  | some .stopTyping => .test .done (.use false .done)
  | some .mute => .test .done (.use true (refuse (.use true .done)))
  | some .unmute => .test .done (refuse (.use true .done))
  | some .ban =>
    .test .done (.use true (refuse (.use true (refuse (refuse (.use false (refuse
      (.use false .done))))))))
  | some .demote => .test .done (.use true (refuse (.use true (refuse (.use true .done)))))
  | some .invite => .test .done (.use true (refuse (.use true (refuse (.use true .done)))))
  | some .register | some .login | some .reconnect | some .pm | some .rooms | some .sessions
  | some .revokeSession | some .block | some .unblock | some .decline | some .invalid => .done

/-- Alone with its room, every handler uses it only where it knows it to be there. -/
theorem checks_readsOf (command : Option CmdType) :
    (readsOf command).checks false false = true := by
  rcases command with _ | command
  · rfl
  · cases command <;> rfl

/-- What the handler of a KICK or a BAN does next with its target. -/
inductive KickPhase where
  | compare
  | remove
  | write
  | done
  deriving DecidableEq

/-- The handler of a KICK or a BAN out of a room. -/
structure Kicker where
  room : RoomPtr
  ban : Bool
  phase : KickPhase
  deriving DecidableEq

/-- The handler of a client, and those that kick the client. -/
structure KickScene (ι : Type*) where
  target : PointerThread RoomPtr
  kickers : ι → Kicker

inductive KickInput (ι : Type*) where
  | start (command : Option CmdType)
  | run (branch : Bool) (room : RoomPtr)
  | kicker (i : ι) (found : Bool)

namespace KickScene

variable {ι : Type*} [DecidableEq ι]

def setPhase (s : KickScene ι) (i : ι) (phase : KickPhase) : KickScene ι :=
  { s with kickers := Function.update s.kickers i { s.kickers i with phase } }

/--
One read, one write or one section. A KICK goes on only if its target was found
among the members, a BAN in any case; both wait for the lock of the room.
-/
def step (s : KickScene ι) : KickInput ι → KickScene ι
  | .start command =>
    if s.target.rest = .done ∧ s.target.nullUsed = false then
      { s with target := { s.target with rest := readsOf command } }
    else s
  | .run branch room => { s with target := s.target.step branch room }
  | .kicker i found =>
    match (s.kickers i).phase with
    | .compare =>
      s.setPhase i (if s.target.pointer = some (s.kickers i).room then .remove else .done)
    | .remove =>
      if (s.kickers i).room ∈ s.target.held then s
      else s.setPhase i (if (s.kickers i).ban || found then .write else .done)
    | .write => { s.setPhase i .done with target := { s.target with pointer := none } }
    | .done => s

/-- A client between two commands. -/
def start (kickers : ι → Kicker) (location : Option RoomPtr) : KickScene ι :=
  ⟨⟨location, [], .done, false⟩, kickers⟩

/-- The handler has used no null room, and a handler that is done holds no lock. -/
def Unharmed (s : KickScene ι) : Prop :=
  s.target.nullUsed = false ∧ (s.target.rest = .done → s.target.held = [])

instance (s : KickScene ι) : Decidable s.Unharmed :=
  inferInstanceAs (Decidable (_ ∧ (_ → _)))

/-- The room is set to null only while the handler does not read it again untested. -/
def Undisturbed (s : KickScene ι) : KickInput ι → Prop
  | .kicker i _ => (s.kickers i).phase = .write → s.target.rest.rereads = false
  | _ => True

instance (s : KickScene ι) : (input : KickInput ι) → Decidable (s.Undisturbed input)
  | .kicker _ _ => inferInstanceAs (Decidable (_ → _))
  | .start _ => isTrue trivial
  | .run _ _ => isTrue trivial

variable {s : KickScene ι}

theorem sound_step (h : s.target.Sound) {input : KickInput ι} (hc : s.Undisturbed input) :
    (s.step input).target.Sound := by
  cases input with
  | start command =>
    simp only [step]
    split
    · rename_i hdone
      exact ⟨hdone.2, false, false, checks_readsOf command, nofun, h.held_eq_nil hdone.1⟩
    · exact h
  | run branch room => exact h.step branch room
  | kicker i found =>
    simp only [step]
    split
    · exact h
    · split
      · exact h
      · exact h
    · rename_i hwrite
      exact h.clear (hc hwrite)
    · exact h

theorem run_target (s : KickScene ι) (inputs : List (Bool × RoomPtr)) :
    (run step s (inputs.map fun input => .run input.1 input.2)).target = s.target.steps inputs := by
  induction inputs generalizing s with
  | nil => rfl
  | cons input inputs ih => exact ih _

/--
A handler whose room is set to null only when it does not read it again comes to
no harm, and if the room is set to null at any other time it can come to harm.
-/
theorem kicked_unharmed (kickers : ι → Kicker) (location : Option RoomPtr)
    (inputs : List (KickInput ι)) (h : Along step Undisturbed (start kickers location) inputs) :
    let s := run step (start kickers location) inputs
    s.Unharmed ∧ ∀ i found, (s.kickers i).phase = .write → s.target.rest.rereads = true →
      ∃ inputs', ¬(run step (s.step (.kicker i found)) inputs').Unharmed := by
  intro s
  have hsound : s.target.Sound := by
    refine run_invariant_along (I := fun s : KickScene ι => s.target.Sound)
      (fun s input hs hc => sound_step hs hc) ?_ h
    exact ⟨rfl, false, false, rfl, nofun, rfl⟩
  refine ⟨⟨hsound.nullUsed, hsound.held_eq_nil⟩, fun i found hwrite hrest => ?_⟩
  have hnull : (s.step (.kicker i found)).target = { s.target with pointer := none } := by
    simp only [step, hwrite]
  obtain ⟨inputs', hused⟩ := PointerThread.exists_nullUsed
    (s := { s.target with pointer := none }) rfl hrest 0
  refine ⟨inputs'.map fun input => .run input.1 input.2, fun hunharmed => ?_⟩
  have hnot := hunharmed.1
  rw [run_target, hnull, hused] at hnot
  exact absurd hnot (by decide)

/-- A KICK out of room 1. -/
def kickFromOne : Unit → Kicker := fun _ => ⟨1, false, .compare⟩

/-- Between two commands the KICK does no harm. -/
theorem kicked_unharmed_between :
    (run step (start kickFromOne (some 1)) [.kicker () true, .kicker () true, .kicker () true,
      .start (some .msg), .run true 1]).Unharmed :=
  (kicked_unharmed kickFromOne (some 1) _ (by decide)).1

/-- WHO has taken the lock of its room, and has to find the room again to release it. -/
def kickedInWho : List (KickInput Unit) :=
  [.kicker () true, .kicker () true, .start (some .who), .run true 1, .run true 1, .run true 1,
    .kicker () true, .run true 1]

/-- MSG has tested its room, and reads it again to add to its history. -/
def kickedInMsg : List (KickInput Unit) :=
  [.kicker () true, .kicker () true, .start (some .msg), .run true 1, .run false 1,
    .kicker () true, .run true 1]

theorem kicked_harmed :
    ¬(run step (start kickFromOne (some 1)) kickedInWho).Unharmed ∧
    (run step (start kickFromOne (some 1)) kickedInWho).target.held = [1] ∧
    ¬(run step (start kickFromOne (some 1)) kickedInMsg).Unharmed := by
  decide

end KickScene

end ChatServer
