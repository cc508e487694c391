import Mathlib.Data.Fintype.Basic
import ChatServer.Concurrent.RoomHandlers

/-! # Deletions of rooms

A room is tested for members and deleted in two sections, and looked up and
entered in two. It is deleted empty, and with no one about to enter it, when no
lookup falls between another handler's test and deletion of the room, and no
test between another handler's lookup and entry.
-/

namespace ChatServer

open Library World

/-- The room that a handler has looked up or created and goes on to add its client to. -/
def RoomPhase.held : RoomPhase → Option RoomPtr
  | .createAdd room => some room
  | .joinAdd room => some room
  | .acceptLeave room => some room
  | .acceptAdd room => some room
  | _ => none

/-- The room that a handler is about to test for members. -/
def RoomPhase.tested : RoomPhase → Option RoomPtr
  | .emptyTest room _ => some room
  | _ => none

/-- The room that a handler has found empty and is about to delete. -/
def RoomPhase.deleting : RoomPhase → Option RoomPtr
  | .deleteRoom room _ => some room
  | _ => none

/-- The room that a section looks up or creates. -/
def obtained (me : ClientPtr) (w : World) (input : Env × Option RoomCommand) :
    RoomPhase → Option RoomPtr
  | .idle =>
    match input.2 with
    | some (.create roomName) => (createRoom input.1 (some roomName) (some me) w.db w.reg).2.1
    | _ => none
  | .joinFind roomName => (findRoom (some roomName) w.reg).2
  | .acceptFind roomName => (findRoom (some roomName) w.reg).2
  | _ => none

variable {env : Env} {w : World} {conn : Conn} {me c : ClientPtr} {r room : RoomPtr}
  {reg : Registry} {phase : RoomPhase} {input : Env × Option RoomCommand}

theorem members_remove (room : RoomPtr) (c : ClientPtr) (h : (reg.rooms r).members = []) :
    ((roomRemoveMember (some room) (some c) reg).2.rooms r).members = [] := by
  rw [roomRemoveMember_snd]
  rcases eq_or_ne r room with rfl | hne
  · simp [h]
  · simp [hne, h]

theorem members_add (hne : r ≠ room) :
    ((roomAddMember (some room) (some c) reg).2.rooms r).members = (reg.rooms r).members := by
  rcases roomAddMember_cases reg room c with ⟨he, -⟩ | ⟨he, -⟩ | ⟨he, -⟩
  · rw [he]
  · rw [he]
  · rw [he]
    simp [hne]

theorem members_create {roomName : Text} {db : Database}
    (hne : (createRoom env (some roomName) (some c) db reg).2.1 ≠ some r) :
    ((createRoom env (some roomName) (some c) db reg).2.2.rooms r).members =
      (reg.rooms r).members := by
  rcases hcreate : createRoom env (some roomName) (some c) db reg with ⟨err, o, reg'⟩
  rw [hcreate] at hne
  by_cases hok : err = .ok
  · subst hok
    obtain ⟨r', rfl, -, -, -, rfl⟩ := createRoom_ok hcreate
    have hne' : r ≠ r' := fun heq => hne (by rw [heq])
    simp [hne']
  · rw [createRoom_err hok hcreate]

theorem members_joinLeave (h : (w.reg.rooms r).members = []) :
    ((joinLeave conn me w).reg.rooms r).members = [] := by
  unfold joinLeave
  split
  · exact h
  · rename_i old _
    have hremove := members_remove old me h
    split
    · rename_i hok
      rw [hok] at hremove
      exact hremove
    · rename_i hok
      rw [hok] at hremove
      exact hremove

theorem members_leaveSection {cause : LeaveCause} (h : (w.reg.rooms r).members = []) :
    ((leaveSection conn me cause w).1.reg.rooms r).members = [] := by
  unfold leaveSection
  split
  · exact h
  · exact members_remove _ _ h

theorem members_startSection {command : RoomCommand} (h : (w.reg.rooms r).members = [])
    (hobtained : obtained me w (env, some command) .idle ≠ some r) :
    ((startSection conn me w env command).1.reg.rooms r).members = [] := by
  cases command with
  | create roomName =>
    have hmembers : ((createRoom env (some roomName) (some me) w.db w.reg).2.2.rooms r).members =
        (w.reg.rooms r).members := members_create hobtained
    simp only [startSection]
    rcases hcreate : createRoom env (some roomName) (some me) w.db w.reg with ⟨err, o, reg⟩
    rw [hcreate] at hmembers
    cases err <;> cases o <;> exact hmembers.trans h
  | join roomName => exact members_joinLeave h
  | accept roomName =>
    simp only [startSection]
    split_ifs <;> exact h
  | leave =>
    simp only [startSection]
    split
    · exact h
    · rename_i room _
      have hremove := members_remove room me h
      rcases hleft : roomRemoveMember (some room) (some me) w.reg with ⟨err, reg⟩
      rw [hleft] at hremove
      cases err <;> exact hremove
  | logout => exact members_leaveSection h
  | disconnect => exact members_leaveSection h

theorem members_roomSection (h : (w.reg.rooms r).members = []) (hheld : phase.held ≠ some r)
    (hobtained : obtained me w input phase ≠ some r) :
    ((roomSection conn me (w, phase) input).1.reg.rooms r).members = [] := by
  obtain ⟨env, command⟩ := input
  have hadd : ∀ {room}, phase.held = some room →
      ((roomAddMember (some room) (some me) w.reg).2.rooms r).members = [] := by
    intro room hroom
    rw [members_add, h]
    rintro rfl
    exact hheld hroom
  cases phase with
  | idle =>
    cases command with
    | none => exact h
    | some command => exact members_startSection h hobtained
  | createAdd room =>
    have hmembers := hadd rfl
    simp only [roomSection]
    rcases hadded : roomAddMember (some room) (some me) w.reg with ⟨err, reg⟩
    rw [hadded] at hmembers
    cases err <;> exact hmembers
  | joinFind roomName =>
    simp only [roomSection]
    split <;> exact h
  | joinAdd room =>
    have hmembers := hadd rfl
    simp only [roomSection]
    rcases hadded : roomAddMember (some room) (some me) w.reg with ⟨err, reg⟩
    rw [hadded] at hmembers
    cases err <;> exact hmembers
  | acceptFind roomName =>
    simp only [roomSection]
    split <;> exact h
  | acceptLeave room =>
    simp only [roomSection, acceptLeave_room w.reg me r, h]
    split_ifs <;> rfl
  | acceptAdd room => exact hadd rfl
  | emptyTest room cause => exact h
  | deleteRoom room cause =>
    simp only [roomSection, ChatServer.deleteRoom]
    split_ifs <;> exact h
  | deleteClient cause =>
    have hdelete : ((deleteClient (some me) w.reg).2.rooms r).members = [] := by
      simp only [deleteClient]
      split_ifs <;> exact h
    cases cause <;> exact hdelete
  | gone => exact h

theorem LeaveCause.next_inert (cause : LeaveCause) :
    cause.next.held = none ∧ cause.next.deleting = none := by
  cases cause <;> exact ⟨rfl, rfl⟩

theorem leaveSection_inert {cause : LeaveCause} :
    (leaveSection conn me cause w).2.held = none ∧
      (leaveSection conn me cause w).2.deleting = none := by
  unfold leaveSection
  split
  · exact cause.next_inert
  · exact ⟨rfl, rfl⟩

theorem startSection_holds (conn : Conn) (me : ClientPtr) (w : World) (env : Env)
    (command : RoomCommand) :
    ((startSection conn me w env command).2.held = none ∨
      (startSection conn me w env command).2.held =
        obtained me w (env, some command) .idle) ∧
    (startSection conn me w env command).2.deleting = none := by
  cases command with
  | create roomName =>
    simp only [startSection, obtained]
    rcases createRoom env (some roomName) (some me) w.db w.reg with ⟨err, o, reg⟩
    cases err <;> cases o <;> simp [RoomPhase.held, RoomPhase.deleting]
  | join roomName => exact ⟨.inl rfl, rfl⟩
  | accept roomName =>
    simp only [startSection]
    split_ifs <;> exact ⟨.inl rfl, rfl⟩
  | leave =>
    simp only [startSection]
    split
    · exact ⟨.inl rfl, rfl⟩
    · split <;> exact ⟨.inl rfl, rfl⟩
  | logout => exact ⟨.inl leaveSection_inert.1, leaveSection_inert.2⟩
  | disconnect => exact ⟨.inl leaveSection_inert.1, leaveSection_inert.2⟩

/-- What a handler is about to do with a room after a section, given where it was before. -/
inductive Holds (me : ClientPtr) (w : World) (input : Env × Option RoomCommand) (phase : RoomPhase)
    (next : World × RoomPhase) : Prop
  | free (held : next.2.held = none) (deleting : next.2.deleting = none)
  | enter (held : next.2.held = phase.held ∨ next.2.held = obtained me w input phase)
      (deleting : next.2.deleting = none)
  | delete {room : RoomPtr} (held : next.2.held = none) (deleting : next.2.deleting = some room)
      (tested : phase.tested = some room) (same : next.1 = w)
      (empty : (w.reg.rooms room).members = [])

theorem holds_roomSection (conn : Conn) (me : ClientPtr) (w : World) (phase : RoomPhase)
    (input : Env × Option RoomCommand) :
    Holds me w input phase (roomSection conn me (w, phase) input) := by
  obtain ⟨env, command⟩ := input
  cases phase with
  | idle =>
    cases command with
    | none => exact .free rfl rfl
    | some command =>
      obtain ⟨hheld | hheld, hdeleting⟩ := startSection_holds conn me w env command
      · exact .free hheld hdeleting
      · exact .enter (.inr hheld) hdeleting
  | createAdd room =>
    simp only [roomSection]
    split <;> exact .free rfl rfl
  | joinFind roomName =>
    rcases findRoom_cases (some roomName) w.reg with ⟨r', hfind⟩ | hfind | hfind
    · simp only [roomSection, hfind]
      exact .enter (.inr (by simp only [obtained, hfind]; rfl)) rfl
    · simp only [roomSection, hfind]
      exact .free rfl rfl
    · simp only [roomSection, hfind]
      exact .free rfl rfl
  | joinAdd room =>
    simp only [roomSection]
    split <;> exact .free rfl rfl
  | acceptFind roomName =>
    cases hfind : (findRoom (some roomName) w.reg).2 with
    | none =>
      simp only [roomSection, hfind]
      exact .free rfl rfl
    | some r' =>
      simp only [roomSection, hfind]
      exact .enter (.inr (by simp only [obtained, hfind]; rfl)) rfl
  | acceptLeave room => exact .enter (.inl rfl) rfl
  | acceptAdd room => exact .free rfl rfl
  | emptyTest room cause =>
    simp only [roomSection]
    split_ifs with hempty
    · exact .delete rfl rfl rfl rfl hempty
    · exact .free cause.next_inert.1 cause.next_inert.2
  | deleteRoom room cause => exact .free cause.next_inert.1 cause.next_inert.2
  | deleteClient cause => cases cause <;> exact .free rfl rfl
  | gone => exact .free rfl rfl

/-- A handler gets to enter a room by looking it up or creating it. -/
theorem held_roomSection (h : (roomSection conn me (w, phase) input).2.held = some r) :
    phase.held = some r ∨ obtained me w input phase = some r := by
  cases holds_roomSection conn me w phase input with
  | free held _ => cases held.symm.trans h
  | enter held _ => exact held.imp (fun hh => hh.symm.trans h) fun hh => hh.symm.trans h
  | delete held _ _ _ _ => cases held.symm.trans h

/-- A handler gets to delete a room by finding it empty. -/
theorem deleting_roomSection (h : (roomSection conn me (w, phase) input).2.deleting = some r) :
    phase.tested = some r ∧ (roomSection conn me (w, phase) input).1 = w ∧
      (w.reg.rooms r).members = [] := by
  cases holds_roomSection conn me w phase input with
  | free _ deleting => cases deleting.symm.trans h
  | enter _ deleting => cases deleting.symm.trans h
  | delete _ deleting tested same empty =>
    obtain rfl := Option.some.inj (deleting.symm.trans h)
    exact ⟨tested, same, empty⟩

section Race

variable {ι : Type*} [DecidableEq ι] (conns : ι → Conn) (mes : ι → ClientPtr)

/-- One section of one of the handlers, each of a client of its own. -/
abbrev roomRace : Threads ι World RoomPhase → ι × Env × Option RoomCommand →
    Threads ι World RoomPhase :=
  Threads.step fun i => roomSection (conns i) (mes i)

/-- No handler has started. -/
def roomStart (w : World) : Threads ι World RoomPhase := ⟨w, fun _ => .idle⟩

/--
A handler that finds a room empty does so while no other handler is between its
lookup of the room and its entry, and a handler that looks a room up or creates
it does so while no other is between its test and its deletion of the room.
-/
def NoWindow (s : Threads ι World RoomPhase) (input : ι × Env × Option RoomCommand) : Prop :=
  (∀ r ∈ (s.loc input.1).tested, (s.shared.reg.rooms r).members = [] →
    ∀ j, j ≠ input.1 → (s.loc j).held ≠ some r) ∧
  ∀ r ∈ obtained (mes input.1) s.shared input.2 (s.loc input.1),
    ∀ j, j ≠ input.1 → (s.loc j).deleting ≠ some r

instance [Fintype ι] (s : Threads ι World RoomPhase) (input : ι × Env × Option RoomCommand) :
    Decidable (NoWindow mes s input) := inferInstanceAs (Decidable (_ ∧ _))

/-- The next section of a handler removes a room. -/
def Deletes (s : Threads ι World RoomPhase) (i : ι) (r : RoomPtr) : Prop :=
  (s.loc i).deleting = some r ∧ r ∈ s.shared.reg.roomList

/-- A room about to be deleted is empty, and no other handler is about to enter it. -/
def Unheld (s : Threads ι World RoomPhase) : Prop :=
  ∀ i r, (s.loc i).deleting = some r →
    (s.shared.reg.rooms r).members = [] ∧ ∀ j, j ≠ i → (s.loc j).held ≠ some r

variable {conns mes} {s : Threads ι World RoomPhase} {i : ι}

theorem unheld_step (h : Unheld s) (hc : NoWindow mes s (i, input)) :
    Unheld (roomRace conns mes s (i, input)) := by
  intro j r hj
  rcases eq_or_ne j i with rfl | hji
  · -- the handler that moves has just tested the room
    rw [Threads.step_loc_self] at hj
    obtain ⟨htested, hsame, hempty⟩ := deleting_roomSection hj
    refine ⟨by rw [Threads.step_shared, hsame]; exact hempty, fun k hk => ?_⟩
    rw [Threads.step_loc_of_ne hk]
    exact hc.1 r htested hempty k hk
  · rw [Threads.step_loc_of_ne hji] at hj
    obtain ⟨hempty, hothers⟩ := h j r hj
    have hobtained : obtained (mes i) s.shared input (s.loc i) ≠ some r :=
      fun ho => hc.2 r ho j hji hj
    refine ⟨members_roomSection hempty (hothers i hji.symm) hobtained, fun k hk hheld => ?_⟩
    rcases eq_or_ne k i with rfl | hki
    · rw [Threads.step_loc_self] at hheld
      exact (held_roomSection hheld).elim (hothers k hk) hobtained
    · rw [Threads.step_loc_of_ne hki] at hheld
      exact hothers k hk hheld

/--
In an interleaving without these windows, a room is empty when it is deleted,
and no other handler that has looked it up goes on to enter it.
-/
theorem deleted_unheld (conns : ι → Conn) (mes : ι → ClientPtr) (w : World)
    (inputs : List (ι × Env × Option RoomCommand))
    (h : Along (roomRace conns mes) (NoWindow mes) (roomStart w) inputs) :
    ∀ pre i input post, inputs = pre ++ (i, input) :: post →
      let s := run (roomRace conns mes) (roomStart w) pre
      ∀ r, Deletes s i r → (s.shared.reg.rooms r).members = [] ∧
        ∀ j, j ≠ i → (s.loc j).held = some r → ∀ x ∈ post, x.1 ≠ j := by
  rintro pre i input post rfl s r hdel
  have hstart : Unheld (roomStart (ι := ι) w) := fun i r hi => by cases hi
  have hunheld : Unheld s := by
    refine run_invariant_along (I := Unheld) ?_ hstart (along_append.mp h).1
    exact fun s input hs hc => unheld_step hs hc
  obtain ⟨hempty, hothers⟩ := hunheld i r hdel.1
  exact ⟨hempty, fun j hj hheld => absurd hheld (hothers j hj)⟩

end Race

/-- Alice is alone in her room, and Bob is in none. -/
def aliceAlone : World :=
  run step (World.init ⟨4, 4, 4, 10⟩ .empty 0)
    [(.calm 0 0 "t0".toList, .accept 5 false),
     (.calm 0 1 "t1".toList, .line 5 "REGISTER alice pw".toList),
     (.calm 0 0 "t0".toList, .accept 6 false),
     (.calm 0 2 "t2".toList, .line 6 "REGISTER bob pw".toList),
     (.calm 0 0 "t0".toList, .line 5 "CREATE lounge".toList)]

/-- The connections of Alice and Bob. -/
def aliceBobConns (bob : Bool) : Conn := ⟨if bob then 6 else 5, some (if bob then 2 else 1), false⟩

def aliceBob (bob : Bool) : ClientPtr := if bob then 2 else 1

/-- A section of Alice or of Bob. -/
def sectionOf (bob : Bool) (command : Option RoomCommand) : Bool × Env × Option RoomCommand :=
  (bob, .calm 0 0 "t0".toList, command)

/-- Alice leaves and her room is deleted before Bob looks for it. -/
theorem deleted_unheld_serial :
    let s := run (roomRace aliceBobConns aliceBob) (roomStart aliceAlone)
      [sectionOf false (some .leave), sectionOf false none]
    Deletes s false 0 ∧ (s.shared.reg.rooms 0).members = [] := by
  have hdel : Deletes (run (roomRace aliceBobConns aliceBob) (roomStart aliceAlone)
      [sectionOf false (some .leave), sectionOf false none]) false 0 := by
    unfold Deletes
    decide +kernel
  have hunheld := deleted_unheld aliceBobConns aliceBob aliceAlone
    ([sectionOf false (some .leave), sectionOf false none] ++ sectionOf false none ::
      [sectionOf true (some (.join "lounge".toList)), sectionOf true none])
    (by decide +kernel) _ _ _ _ rfl
  exact ⟨hdel, (hunheld 0 hdel).1⟩

/-- Bob has looked the room up when Alice deletes it, and goes on to enter it. -/
theorem deleted_held :
    ¬ ∀ pre i input post, [sectionOf false (some .leave), sectionOf false none,
        sectionOf true (some (.join "lounge".toList)), sectionOf true none, sectionOf false none,
        sectionOf true none] = pre ++ (i, input) :: post →
      let s := run (roomRace aliceBobConns aliceBob) (roomStart aliceAlone) pre
      ∀ r, Deletes s i r → (s.shared.reg.rooms r).members = [] ∧
        ∀ j, j ≠ i → (s.loc j).held = some r → ∀ x ∈ post, x.1 ≠ j := by
  intro h
  have hdel := h [sectionOf false (some .leave), sectionOf false none,
    sectionOf true (some (.join "lounge".toList)), sectionOf true none] false _
    [sectionOf true none] rfl 0 (by unfold Deletes; decide +kernel)
  exact hdel.2 true (by decide) (by decide +kernel) _ List.mem_cons_self rfl

end ChatServer
