import ChatServer.Membership.Steps
import ChatServer.Replies.Answers

/-! # Entering a room

The commands by which a client becomes a member of a room, and what holds once
it is one.
-/

namespace ChatServer

open World Roster

/-- A logged-in client's command line. -/
def Commands (w : World) (e : Event) (conn : Conn) (me : ClientPtr) (command : Cmd) : Prop :=
  ∃ text, e = .line conn.fd text ∧ w.conns.get conn.fd = some conn ∧ conn.me = some me ∧
    parseLine text = command

/-- The commands that make a client a member of a room of a given name. -/
inductive Enters (env : Env) (w : World) (command : Cmd) (me : ClientPtr) (n : Text) : Prop
  | create (ht : command.type = .create ∨ command.type = .createPrivate)
      (h₁ : command.arg1 = some n)
      (made : (createRoom env (some n) (some me) w.db w.reg).1 = .ok)
      (out : (w.client me).currentRoom = none) (free : 0 < w.reg.maxMembers)
  | join {r : RoomPtr} (ht : command.type = .join) (h₁ : command.arg1 = some n)
      (found : findRoom (some n) w.reg = (.ok, some r))
      (seated : ∀ old, (w.client me).currentRoom = some old → me ∈ (w.room old).members)
      (free : ((acceptLeave me w.reg).rooms r).members.length < (w.room r).memberCapacity)
  | accept {r : RoomPtr} (ht : command.type = .accept) (h₁ : command.arg1 = some n)
      (invited : inviteFind env n (w.client me).clientName w.db)
      (found : (findRoom (some n) w.reg).2 = some r)
      (free : ((acceptLeave me w.reg).rooms r).members.length < (w.room r).memberCapacity)

/-- The room JOIN enters. -/
def roomJoined (command : Cmd) (me : ClientPtr) (w : World) : Option RoomPtr :=
  match findRoom command.arg1 w.reg with
  | (.ok, some room) =>
    if (∀ old, (w.client me).currentRoom = some old → me ∈ (w.room old).members) ∧
        ((acceptLeave me w.reg).rooms room).members.length < (w.room room).memberCapacity then
      some room
    else none
  | _ => none

/-- The room ACCEPT leads to, be it full or not. -/
def roomAccepted (env : Env) (command : Cmd) (me : ClientPtr) (w : World) : Option RoomPtr :=
  match command.arg1 with
  | none => none
  | some roomName =>
    if inviteFind env roomName (w.client me).clientName w.db then
      (findRoom (some roomName) w.reg).2
    else none

/-- Out of the room a client is in, and into another one if it has a place. -/
def moveTo (me : ClientPtr) (room : RoomPtr) (reg : Registry) : Registry :=
  (roomAddMember (some room) (some me) (acceptLeave me reg)).2.setCurrentRoom me (some room)

variable {env : Env} {w : World} {e : Event} {conn : Conn} {me c : ClientPtr} {command : Cmd}
  {r room : RoomPtr} {n u : Text}

section MoveTo

variable (reg : Registry) (me : ClientPtr) (room r : RoomPtr)

theorem roomAddMember_room : ∃ members, (roomAddMember (some room) (some me) reg).2.rooms r =
    { reg.rooms r with members } := by
  rcases roomAddMember_cases reg room me with ⟨h, -⟩ | ⟨h, -⟩ | ⟨h, -⟩ <;> rw [h]
  · exact ⟨_, rfl⟩
  · exact ⟨_, rfl⟩
  · rcases eq_or_ne r room with rfl | hne
    · exact ⟨_, by simp; rfl⟩
    · exact ⟨_, by simp [hne]; rfl⟩

theorem moveTo_room : ∃ members, (moveTo me room reg).rooms r = { reg.rooms r with members } := by
  obtain ⟨members, hadd⟩ := roomAddMember_room (acceptLeave me reg) me room r
  rw [acceptLeave_room] at hadd
  exact ⟨members, hadd⟩

theorem moveTo_history : ((moveTo me room reg).rooms r).history = (reg.rooms r).history := by
  obtain ⟨members, hmove⟩ := moveTo_room reg me room r
  rw [hmove]

theorem moveTo_roomName : ((moveTo me room reg).rooms r).roomName = (reg.rooms r).roomName := by
  obtain ⟨members, hmove⟩ := moveTo_room reg me room r
  rw [hmove]

theorem moveTo_roomList : (moveTo me room reg).roomList = reg.roomList := by
  unfold moveTo
  rcases roomAddMember_cases (acceptLeave me reg) room me with ⟨h, -⟩ | ⟨h, -⟩ | ⟨h, -⟩ <;> simp [h]

end MoveTo

theorem joinLeave_replies : Replies conn w.out (joinLeave conn me w).out := by
  unfold joinLeave
  split
  · exact ⟨[], by simp⟩
  · split
    · exact ⟨[], by simp⟩
    · exact answers_reply.replies

/-- JOIN moves its client to the room found, if it can leave its own and there is a place. -/
theorem handleJoin_of_joined (h : roomJoined command me w = some room) :
    handleJoin command conn me w =
      welcome conn me room { w with reg := moveTo me room w.reg } := by
  unfold roomJoined at h
  rcases findRoom_cases command.arg1 w.reg with ⟨room', hfind⟩ | hfind | hfind
  · simp only [hfind] at h
    split_ifs at h with hjoin
    obtain rfl := Option.some.inj h
    obtain ⟨name, h₁⟩ := exists_name_of_findRoom hfind
    rw [h₁] at hfind
    simp only [handleJoin, h₁, joinLeave_of_seated conn hjoin.1, findRoom_acceptLeave, hfind]
    rcases roomAddMember_cases (acceptLeave me w.reg) room' me with
      ⟨-, hin⟩ | ⟨-, -, hfull⟩ | ⟨hadd, -⟩
    · exact absurd acceptLeave_location hin
    · rw [acceptLeave_memberCapacity] at hfull
      exact absurd hjoin.2 (not_lt.mpr hfull)
    · simp only [moveTo, hadd]
  · simp [hfind] at h
  · simp [hfind] at h

theorem handleJoin_of_not_joined (h : roomJoined command me w = none) :
    Replies conn w.out (handleJoin command conn me w).out := by
  unfold handleJoin
  cases h₁ : command.arg1 with
  | none => exact answers_reply.replies
  | some name =>
    have hleave : Replies conn w.out (joinLeave conn me w).out := joinLeave_replies
    refine hleave.trans ?_
    simp only
    split
    · rename_i room hfind
      split
      · rename_i hadd
        obtain ⟨hseated, hfound, hfree⟩ := joinLeave_add hfind hadd
        simp only [roomJoined, h₁, hfound] at h
        rw [if_pos ⟨hseated, hfree⟩] at h
        cases h
      · exact answers_reply.replies
    · exact answers_reply.replies

theorem handleAccept_of_accepted (conn : Conn)
    (h : roomAccepted env command me w = some room) :
    ∃ db, handleAccept env command conn me w =
      welcome conn me room { w with db, reg := moveTo me room w.reg } := by
  unfold roomAccepted at h
  split at h
  · cases h
  · rename_i name h₁
    split_ifs at h with hinv
    simp only [handleAccept, h₁, hinv, Bool.not_true, Bool.false_eq_true, if_false, h]
    exact ⟨_, rfl⟩

theorem handleAccept_of_not_accepted (h : roomAccepted env command me w = none) :
    AnswersOnce conn w.out (handleAccept env command conn me w).out := by
  unfold roomAccepted at h
  unfold handleAccept
  cases h₁ : command.arg1 with
  | none => exact answersOnce_err
  | some name =>
    by_cases hinv : inviteFind env name (w.client me).clientName w.db
    · simp only [h₁, hinv, if_true] at h
      simp only [hinv, Bool.not_true, Bool.false_eq_true, if_false, h]
      exact answersOnce_err
    · simp only [hinv, Bool.not_false, if_true]
      exact answersOnce_err

theorem step_eq_dispatch (env : Env) (h : Commands w e conn me command)
    (ht : command.type ≠ .invalid) :
    step w (env, e) = dispatch env command conn me { w with out := [], broadcasts := [] } := by
  obtain ⟨text, rfl, hconn, hme, rfl⟩ := h
  simp [step, handleEvent, hconn, processLine, hme, ht]

theorem Commands.unique {conn' : Conn} {me' : ClientPtr} {command' : Cmd}
    (h : Commands w e conn me command) (h' : Commands w e conn' me' command') :
    conn = conn' ∧ me = me' ∧ command = command' := by
  obtain ⟨text, rfl, hconn, hme, rfl⟩ := h
  obtain ⟨text', he, hconn', hme', rfl⟩ := h'
  obtain ⟨hfd, rfl⟩ := Event.line.inj he
  rw [← hfd, hconn] at hconn'
  obtain rfl := Option.some.inj hconn'
  rw [hme] at hme'
  obtain rfl := Option.some.inj hme'
  exact ⟨rfl, rfl, rfl⟩

theorem Commands.not_login (h : Commands w e conn me command) {fd : Fd} :
    ¬ Does env w e (.login fd c n) := by
  obtain ⟨text, rfl, hconn, hme, rfl⟩ := h
  rintro (_ | ⟨hconn', hp⟩)
  rw [hconn] at hconn'
  obtain rfl := Option.some.inj hconn'
  cases hp with
  | register _ hnone => rw [hnone] at hme; cases hme
  | login _ hnone => rw [hnone] at hme; cases hme
  | reconnect _ hnone => rw [hnone] at hme; cases hme

/-- Whoever an event lets enter is a logged-in client that enters by its command. -/
theorem enters_of_does (h : Does env w e (.enter c r n)) :
    ∃ conn command, Commands w e conn c command ∧ Enters env w command c n := by
  rcases h with _ | ⟨hconn, hp⟩
  obtain rfl := w.conns.fd_eq _ _ hconn
  cases hp with
  | created ht hme h₁ _ made out free =>
    exact ⟨_, _, ⟨_, rfl, hconn, hme, rfl⟩, .create ht h₁ made out free⟩
  | join ht hme h₁ found seated free =>
    exact ⟨_, _, ⟨_, rfl, hconn, hme, rfl⟩, .join ht h₁ found seated free⟩
  | accept ht hme h₁ invited found free =>
    exact ⟨_, _, ⟨_, rfl, hconn, hme, rfl⟩, .accept ht h₁ invited found free⟩

/-- A client of a given name is a member of a live room of a given name. -/
structure Joined (reg : Registry) (r : RoomPtr) (c : ClientPtr) (n u : Text) : Prop where
  live : r ∈ reg.roomList
  roomName : (reg.rooms r).roomName = n
  member : c ∈ (reg.rooms r).members
  clientName : (reg.clients c).clientName = u

theorem joined_of_add (reg : Registry) (hr : r ∈ reg.roomList) (hn : (reg.rooms r).roomName = n)
    (hout : (reg.clients c).currentRoom = none)
    (hfree : (reg.rooms r).members.length < (reg.rooms r).memberCapacity) :
    ∃ reg', roomAddMember (some r) (some c) reg = (.ok, reg') ∧
      Joined (reg'.setCurrentRoom c (some r)) r c n (reg.clients c).clientName := by
  rcases roomAddMember_cases reg r c with ⟨-, h⟩ | ⟨-, -, h⟩ | ⟨h, -, -⟩
  · exact absurd hout h
  · exact absurd hfree (not_lt.mpr h)
  · refine ⟨_, h, hr, ?_, ?_, ?_⟩
    · simpa using hn
    · simp
    · simp

theorem joined_of_create (made : (createRoom env (some n) (some me) w.db w.reg).1 = .ok)
    (out : (w.client me).currentRoom = none) (free : 0 < w.reg.maxMembers) :
    ∃ r reg reg', createRoom env (some n) (some me) w.db w.reg = (.ok, some r, reg) ∧
      roomAddMember (some r) (some me) reg = (.ok, reg') ∧
      Joined (reg'.setCurrentRoom me (some r)) r me n (w.client me).clientName := by
  rcases hcreate : createRoom env (some n) (some me) w.db w.reg with ⟨err, room, reg⟩
  rw [hcreate] at made
  obtain rfl : err = .ok := made
  obtain ⟨r, rfl, -, -, hn, rfl⟩ := createRoom_ok hcreate
  obtain ⟨reg', hadd, hjoined⟩ := joined_of_add (c := me) (n := n) (r := r)
    { w.reg.setRoom r (newRoom env n me w.reg w.db) with roomList := w.reg.roomList ++ [r] }
    (by simp) (by simp [newRoom, strncpy_of_not_badLength hn]) out
    (by simpa [newRoom] using free)
  exact ⟨r, _, reg', rfl, hadd, hjoined⟩

theorem acceptLeave_clientName (reg : Registry) :
    ((acceptLeave me reg).clients me).clientName = (reg.clients me).clientName := by
  unfold acceptLeave
  split
  · rfl
  · rw [roomRemoveMember_snd]
    simp

theorem moveTo_clientName (reg : Registry) :
    ((moveTo me room reg).clients me).clientName = (reg.clients me).clientName := by
  refine Eq.trans ?_ (acceptLeave_clientName reg)
  unfold moveTo
  rcases roomAddMember_cases (acceptLeave me reg) room me with ⟨h, -⟩ | ⟨h, -⟩ | ⟨h, -⟩ <;> simp [h]

theorem joined_of_leave (hfind : (findRoom (some n) w.reg).2 = some r)
    (hfree : ((acceptLeave me w.reg).rooms r).members.length < (w.room r).memberCapacity) :
    ∃ reg', roomAddMember (some r) (some me) (acceptLeave me w.reg) = (.ok, reg') ∧
      Joined (reg'.setCurrentRoom me (some r)) r me n (w.client me).clientName := by
  obtain ⟨hr, hn⟩ := findRoom_some (Prod.ext rfl hfind)
  obtain ⟨reg', hadd, hjoined⟩ := joined_of_add (c := me) (n := n) (r := r) (acceptLeave me w.reg)
    (by simpa using hr) (by simpa using hn) acceptLeave_location
    (by rwa [acceptLeave_memberCapacity])
  exact ⟨reg', hadd, acceptLeave_clientName w.reg ▸ hjoined⟩

theorem joined_of_enters (h : Commands w e conn me command) (henter : Enters env w command me n) :
    ∃ r, Joined (step w (env, e)).reg r me n (w.client me).clientName := by
  cases henter with
  | create ht h₁ made out free =>
    obtain ⟨r, reg, reg', hcreate, hadd, hjoined⟩ := joined_of_create made out free
    refine ⟨r, ?_⟩
    rcases ht with ht | ht
    · rw [step_eq_dispatch env h (by simp [ht])]
      simp only [dispatch, ht, handleCreate, h₁, hcreate, hadd]
      exact hjoined
    · rw [step_eq_dispatch env h (by simp [ht])]
      simp only [dispatch, ht, handleCreatePrivate, h₁, hcreate, hadd]
      exact hjoined
  | @join r ht h₁ found seated free =>
    obtain ⟨reg', hadd, hjoined⟩ := joined_of_leave (by rw [found]) free
    refine ⟨r, ?_⟩
    rw [step_eq_dispatch env h (by simp [ht])]
    have hleave := joinLeave_of_seated conn (w := { w with out := [], broadcasts := [] }) seated
    simp only [dispatch, ht, handleJoin, h₁, hleave, findRoom_acceptLeave, found, hadd, welcome,
      World.notice, broadcast_eq, sendHistory_eq, replyOk_eq, reply_eq, emit_reg]
    exact hjoined
  | @accept r ht h₁ invited found free =>
    obtain ⟨reg', hadd, hjoined⟩ := joined_of_leave found free
    refine ⟨r, ?_⟩
    rw [step_eq_dispatch env h (by simp [ht])]
    have hacc : (handleAccept env command conn me { w with out := [], broadcasts := [] }).reg =
        reg'.setCurrentRoom me (some r) := by
      have hinv : inviteFind env n (World.client { w with out := [], broadcasts := [] }
          me).clientName w.db := invited
      simp only [handleAccept, h₁, hinv, Bool.not_true, Bool.false_eq_true, if_false, found, hadd]
      rfl
    simp only [dispatch, ht, hacc]
    exact hjoined

/-- Whoever an event lets enter creates the room, or is moved to it by JOIN or ACCEPT. -/
theorem enter_cases (h : Does env w e (.enter c r n)) :
    ∃ conn command, Commands w e conn c command ∧
      (((command.type = .create ∨ command.type = .createPrivate) ∧ r ∉ w.reg.roomList) ∨
        (command.type = .join ∧ roomJoined command c w = some r) ∨
        (command.type = .accept ∧ command.arg1 = some n ∧
          inviteFind env n (w.client c).clientName w.db ∧
          roomAccepted env command c w = some r ∧
          ((acceptLeave c w.reg).rooms r).members.length < (w.room r).memberCapacity)) := by
  rcases h with _ | ⟨hconn, hp⟩
  obtain rfl := w.conns.fd_eq _ _ hconn
  cases hp with
  | created ht hme h₁ new made out free =>
    exact ⟨_, _, ⟨_, rfl, hconn, hme, rfl⟩, .inl ⟨ht, new⟩⟩
  | join ht hme h₁ found seated free =>
    refine ⟨_, _, ⟨_, rfl, hconn, hme, rfl⟩, .inr (.inl ⟨ht, ?_⟩)⟩
    simp only [roomJoined, h₁, found]
    exact if_pos ⟨seated, free⟩
  | accept ht hme h₁ invited found free =>
    refine ⟨_, _, ⟨_, rfl, hconn, hme, rfl⟩, .inr (.inr ⟨ht, h₁, invited, ?_, free⟩)⟩
    simp only [roomAccepted, h₁]
    exact (if_pos invited).trans found

theorem Commands.clientName (env : Env) (h : Commands w e conn me command) (c : ClientPtr) :
    ((step w (env, e)).client c).clientName = (w.client c).clientName :=
  congrFun ((step_leads w env e).name_eq fun _ _ _ => h.not_login) c

theorem creates_of_does {cap : ℕ} (h : Does env w e (.create r me n cap)) :
    ∃ conn command, Commands w e conn me command ∧
      (command.type = .create ∨ command.type = .createPrivate) ∧ command.arg1 = some n := by
  rcases h with _ | ⟨hconn, hp⟩
  obtain rfl := w.conns.fd_eq _ _ hconn
  cases hp with
  | create ht hme h₁ => exact ⟨_, _, ⟨_, rfl, hconn, hme, rfl⟩, ht, h₁⟩

theorem promotes_of_does (h : Does env w e (.promote r c)) :
    ∃ conn me command, Commands w e conn me command ∧ command.type = .promote := by
  rcases h with _ | ⟨hconn, hp⟩
  obtain rfl := w.conns.fd_eq _ _ hconn
  cases hp with
  | promote ht hme _ _ => exact ⟨_, _, _, ⟨_, rfl, hconn, hme, rfl⟩, ht⟩

theorem not_close_of_create {r' : RoomPtr} {cap : ℕ} (h : Does env w e (.create r c n cap)) :
    ¬ Does env w e (.close r') := by
  rcases h with _ | ⟨-, hp⟩
  cases hp with
  | create ht hme h₁ =>
    rintro (_ | ⟨-, hp'⟩)
    cases hp' with
    | close ht' => rcases ht with ht | ht <;> simp [ht] at ht'

theorem step_roomName (hr : r ∈ w.reg.roomList) :
    ((step w (env, e)).room r).roomName = (w.room r).roomName := by
  refine (step_leads w env e).title_eq ?_ hr
  by_cases hcreate : ∃ r c n cap, Does env w e (.create r c n cap)
  · obtain ⟨r, c, n, cap, h⟩ := hcreate
    exact .inl fun r' => not_close_of_create h
  · exact .inr fun r c n cap h => hcreate ⟨r, c, n, cap, h⟩

theorem step_joined (env : Env) (h : Commands w e conn me command) (ht : command.type = .join)
    (hjoin : roomJoined command me w = some r) :
    (step w (env, e)).reg = moveTo me r w.reg := by
  have hjoin' : roomJoined command me { w with out := [], broadcasts := [] } = some r := hjoin
  rw [step_eq_dispatch env h (by simp [ht]), dispatch, ht]
  simp only
  rw [handleJoin_of_joined hjoin']
  rfl

theorem step_accepted (h : Commands w e conn me command) (ht : command.type = .accept)
    (haccept : roomAccepted env command me w = some r) :
    (step w (env, e)).reg = moveTo me r w.reg := by
  have haccept' : roomAccepted env command me { w with out := [], broadcasts := [] } = some r :=
      haccept
  rw [step_eq_dispatch env h (by simp [ht]), dispatch, ht]
  simp only
  obtain ⟨db, heq⟩ := handleAccept_of_accepted conn haccept'
  rw [heq]
  rfl

theorem mem_moveTo {reg : Registry}
    (hfree : ((acceptLeave me reg).rooms r).members.length < (reg.rooms r).memberCapacity) :
    me ∈ ((moveTo me r reg).rooms r).members := by
  rw [← acceptLeave_memberCapacity reg me] at hfree
  rcases roomAddMember_cases (acceptLeave me reg) r me with ⟨-, hin⟩ | ⟨-, -, hfull⟩ | ⟨hadd, -⟩
  · exact absurd acceptLeave_location hin
  · exact absurd hfree (not_lt.mpr hfull)
  · simp [moveTo, hadd]

theorem roomJoined_some (h : roomJoined command me w = some r) : r ∈ w.reg.roomList ∧
    ((acceptLeave me w.reg).rooms r).members.length < (w.room r).memberCapacity := by
  unfold roomJoined at h
  split at h
  · rename_i hfind
    split_ifs at h with hjoin
    obtain rfl := Option.some.inj h
    obtain ⟨n, h₁⟩ := exists_name_of_findRoom hfind
    rw [h₁] at hfind
    exact ⟨(findRoom_some hfind).1, hjoin.2⟩
  · cases h

theorem roomAccepted_some (h : roomAccepted env command me w = some r) :
    ∃ n, command.arg1 = some n ∧ inviteFind env n (w.client me).clientName w.db ∧
      r ∈ w.reg.roomList ∧ (w.room r).roomName = n := by
  unfold roomAccepted at h
  split at h
  · cases h
  · rename_i n h₁
    split_ifs at h with hinv
    exact ⟨n, h₁, hinv, findRoom_some (Prod.ext rfl h)⟩

end ChatServer
