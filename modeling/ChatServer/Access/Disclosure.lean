import Mathlib.Data.List.ReduceOption
import ChatServer.Membership.Entry
import ChatServer.Replies.Answers

/-! # Which messages a command discloses

Room messages leave the server in three ways: a MSG is sent to the other
members of the room, a JOIN or an ACCEPT replays the buffer of the room to the
client that enters, and HISTORY sends the rows stored under a room name.
-/

namespace ChatServer

open World Roster

/-- The messages that lines carry, each with the descriptor its line is sent to. -/
def disclosed (outs : List Output) : List (Fd × Carried) :=
  outs.filterMap fun o => o.line.carries.map (o.fd, ·)

/-- The ids of the messages in the buffer of a room. -/
def roomMessages (room : Room) : List ℤ := (historyScan room.history).reduceOption.map Message.id

section Commands

variable (env : Env) (command : Cmd) (conn : Conn) (me : ClientPtr) (w : World)

/-- The room in which a MSG stores its message, and the id of the message. -/
def messageOf : Option (RoomPtr × ℤ) :=
  match (w.client me).currentRoom, command.arg1 with
  | some room, some text =>
    match rateLimitCheck env me w.reg with
    | (false, _) => none
    | (true, reg) =>
      if text = [] then none
      else some (room, (roomAddHistory env room (w.client me).clientName text w.db reg).1)
  | _, _ => none

def shownByRoom (room : Room) : List Carried := (roomMessages room).map (.stored room.roomName)

def shownByJoin : List Carried :=
  match roomJoined command me w with
  | none => []
  | some room => shownByRoom (w.room room)

def shownByAccept : List Carried :=
  match roomAccepted env command me w with
  | none => []
  | some room => shownByRoom (w.room room)

def shownByHistory : List Carried :=
  match command.arg1.or ((w.client me).currentRoom.map fun r => (w.room r).roomName) with
  | none => []
  | some roomName =>
    if (findRoom (some roomName) w.reg).2.isSome then
      (dbLoadHistoryBefore env roomName ((command.arg2.map atoll).getD 0)
        (historyLimit command.arg3) w.db).1.map fun m => .stored roomName m.id
    else []

/-- The stored messages that a command shows to the client that sent it. -/
def shown : List Carried :=
  match command.type with
  | .join => shownByJoin command me w
  | .accept => shownByAccept env command me w
  | .history => shownByHistory env command me w
  | _ => []

/-- What a command discloses, and to whom. -/
def discloses : List (Fd × Carried) :=
  match command.type with
  | .msg =>
    match messageOf env command me w with
    | none => []
    | some (room, _) => (broadcastFds room conn.fd w.reg).map (·, .live room)
  | _ => (shown env command me w).map (conn.fd, ·)

end Commands

variable {env : Env} {w : World} {command : Cmd} {conn : Conn} {me : ClientPtr}
  {r room : RoomPtr} {bytes text : Text} {fd : Fd} {fds : List Fd} {reg' : Registry}

theorem disclosed_append (a b : List Output) : disclosed (a ++ b) = disclosed a ++ disclosed b :=
  List.filterMap_append

theorem mem_disclosed {outs : List Output} {carried : Carried} :
    (fd, carried) ∈ disclosed outs ↔ ∃ o ∈ outs, o.fd = fd ∧ o.line.carries = some carried := by
  simp only [disclosed, List.mem_filterMap, Option.map_eq_some_iff, Prod.mk.injEq]
  constructor
  · rintro ⟨o, ho, c, hc, rfl, rfl⟩
    exact ⟨o, ho, rfl, hc⟩
  · rintro ⟨o, ho, rfl, hc⟩
    exact ⟨o, ho, carried, hc, rfl, rfl⟩

theorem Answers.disclosed {outs outs' : List Output} (h : Answers conn outs outs') :
    disclosed outs' = disclosed outs := by
  obtain ⟨text, rfl⟩ := h
  simp [ChatServer.disclosed]

theorem disclosed_reply : disclosed (w.reply conn text).out = disclosed w.out :=
  answers_reply.disclosed

theorem disclosed_plain : disclosed (w.rawSend fds [{ bytes }]).out = disclosed w.out := by
  simp only [rawSend_eq, emit_out, disclosed_append]
  simp [disclosed, List.filterMap_flatMap]

theorem disclosed_sendHistory :
    disclosed (w.sendHistory r fd).out =
      disclosed w.out ++ (shownByRoom (w.room r)).map (fd, ·) := by
  simp only [sendHistory_eq, emit_out, disclosed_append, shownByRoom, roomMessages, World.room]
  congr 1
  unfold historyLines
  split_ifs with hempty
  · simp [disclosed, historyScan, hempty]
  · simp [disclosed, List.filterMap_map, Function.comp_def]

theorem disclosed_notice {user action : Text} :
    disclosed (w.notice r user action fd).out = disclosed w.out := disclosed_plain

theorem handleLeave_disclosed : disclosed (handleLeave conn me w).out = disclosed w.out := by
  unfold handleLeave
  split
  · exact disclosed_reply
  · split
    · exact disclosed_notice.trans disclosed_reply
    · exact disclosed_reply

theorem handleKick_disclosed : disclosed (handleKick command conn me w).out = disclosed w.out := by
  unfold handleKick
  split
  · exact disclosed_reply
  · split_ifs
    · exact disclosed_reply
    · split
      · exact disclosed_reply
      · split_ifs
        · exact disclosed_reply
        · split
          · exact disclosed_reply
          · split_ifs
            · exact disclosed_reply
            · split
              · exact disclosed_reply.trans (disclosed_notice.trans disclosed_plain)
              · exact disclosed_reply

theorem handlePromote_disclosed :
    disclosed (handlePromote command conn me w).out = disclosed w.out := by
  unfold handlePromote
  split
  · exact disclosed_reply
  · split_ifs
    · exact disclosed_reply
    · split
      · exact disclosed_reply
      · split
        · exact disclosed_reply
        · split_ifs
          · exact disclosed_reply
          · exact disclosed_notice.trans disclosed_plain

theorem handleEdit_disclosed :
    disclosed (handleEdit env command conn me w).out = disclosed w.out := by
  unfold handleEdit
  split
  · exact disclosed_reply
  · split
    · simp only
      split_ifs
      · exact disclosed_reply
      · exact disclosed_reply
      · split
        · exact disclosed_reply.trans disclosed_plain
        · exact disclosed_reply
    · exact disclosed_reply

theorem handleDelete_disclosed :
    disclosed (handleDelete env command conn me w).out = disclosed w.out := by
  unfold handleDelete
  split
  · exact disclosed_reply
  · split
    · exact disclosed_reply
    · simp only
      split_ifs
      · exact disclosed_reply
      · split
        · exact disclosed_reply.trans disclosed_plain
        · exact disclosed_reply

theorem handlePm_disclosed : disclosed (handlePm env command conn me w).out = disclosed w.out := by
  unfold handlePm
  split
  · exact disclosed_reply
  · split
    · exact disclosed_reply
    · split_ifs
      · exact disclosed_reply
      · split
        · exact disclosed_reply
        · split
          · exact disclosed_reply
          · exact disclosed_reply.trans disclosed_plain

theorem handleRead_disclosed :
    disclosed (handleRead env command conn me w).out = disclosed w.out := by
  unfold handleRead
  split
  · exact disclosed_reply
  · simp only
    split_ifs
    · exact disclosed_reply
    · split
      · refine disclosed_reply.trans ?_
        split
        · rfl
        · exact disclosed_plain
      · exact disclosed_reply

theorem handleStatus_disclosed :
    disclosed (handleStatus command conn me w).out = disclosed w.out := by
  unfold handleStatus
  split
  · exact disclosed_reply
  · split
    · exact disclosed_reply
    · simp only
      split
      · exact disclosed_reply
      · split_ifs
        · exact disclosed_reply
        · exact disclosed_notice.trans disclosed_reply

theorem handleTyping_disclosed :
    disclosed (handleTyping env conn me w).out = disclosed w.out := by
  unfold handleTyping
  split
  · exact disclosed_reply
  · refine disclosed_reply.trans ?_
    split_ifs
    · exact disclosed_plain
    · rfl

theorem handleStopTyping_disclosed :
    disclosed (handleStopTyping conn me w).out = disclosed w.out := by
  unfold handleStopTyping
  refine disclosed_reply.trans ?_
  split
  · rfl
  · exact disclosed_plain

theorem leaveLastRoom_disclosed :
    disclosed (leaveLastRoom conn me w).out = disclosed w.out := by
  unfold leaveLastRoom
  split
  · rfl
  · exact disclosed_notice

theorem handleLogout_disclosed : disclosed (handleLogout conn me w).out = disclosed w.out :=
  disclosed_reply.trans leaveLastRoom_disclosed

theorem handleLogoutAll_disclosed :
    disclosed (handleLogoutAll env conn me w).out = disclosed w.out :=
  disclosed_reply.trans leaveLastRoom_disclosed

theorem handleBan_disclosed :
    disclosed (handleBan env command conn me w).out = disclosed w.out := by
  unfold handleBan
  split
  · exact disclosed_reply
  · simp only
    split_ifs
    · exact disclosed_reply
    · split
      · exact disclosed_reply
      · split
        · refine disclosed_reply.trans ?_
          unfold evictBanned
          split
          · rfl
          · split_ifs
            · exact disclosed_plain
            · rfl
        · exact disclosed_reply

theorem handleInvite_disclosed :
    disclosed (handleInvite env command conn me w).out = disclosed w.out := by
  unfold handleInvite
  split
  · exact disclosed_reply
  · simp only
    split_ifs
    · exact disclosed_reply
    · split
      · exact disclosed_reply
      · split_ifs
        · exact disclosed_reply
        · split
          · split
            · exact disclosed_reply
            · exact disclosed_plain.trans disclosed_reply
          · exact disclosed_reply

theorem messageOf_eq_some {msgId : ℤ} (hsent : messageOf env command me w = some (room, msgId)) :
    (w.client me).currentRoom = some room ∧ (rateLimitCheck env me w.reg).1 = true ∧
      ∃ text, command.arg1 = some text ∧ text ≠ [] := by
  unfold messageOf at hsent
  split at hsent
  · rename_i room' text hcur h₁
    split at hsent
    · cases hsent
    · rename_i reg hrate
      split_ifs at hsent with htext
      simp only [Option.some.injEq, Prod.mk.injEq] at hsent
      exact ⟨hcur.trans (congrArg some hsent.1), by rw [hrate], text, h₁, htext⟩
  · cases hsent

theorem handleMsg_disclosed : disclosed (handleMsg env command conn me w).out =
    disclosed w.out ++ (match messageOf env command me w with
      | none => []
      | some (room, _) => (broadcastFds room conn.fd w.reg).map (·, .live room)) := by
  unfold handleMsg messageOf
  cases hcur : (w.client me).currentRoom with
  | none => exact disclosed_reply.trans (List.append_nil _).symm
  | some room =>
    rcases hrate : rateLimitCheck env me w.reg with ⟨ok, reg⟩
    cases h₁ : command.arg1 with
    | none =>
      cases ok with
      | false => exact disclosed_reply.trans (List.append_nil _).symm
      | true => exact disclosed_reply.trans (List.append_nil _).symm
    | some body =>
      cases ok with
      | false => exact disclosed_reply.trans (List.append_nil _).symm
      | true =>
        by_cases hbody : body = []
        · simp only [hbody, if_true]
          exact disclosed_reply.trans (List.append_nil _).symm
        · simp only [hbody, if_false]
          refine disclosed_reply.trans ?_
          rw [broadcast_eq, emit_out, disclosed_append,
            broadcastFds_roomAddHistory hrate]
          simp [disclosed, List.filterMap_map]

theorem welcome_disclosed (hname : (reg'.rooms room).roomName = (w.room room).roomName)
    (hhist : (reg'.rooms room).history = (w.room room).history) :
    disclosed (welcome conn me room { w with reg := reg' }).out =
      disclosed w.out ++ (shownByRoom (w.room room)).map (conn.fd, ·) := by
  have hshown : shownByRoom (reg'.rooms room) = shownByRoom (w.room room) := by
    simp only [shownByRoom, roomMessages, hname, hhist]
  unfold welcome
  rw [disclosed_notice, disclosed_sendHistory, replyOk_eq, disclosed_reply, ← hshown]
  rfl

theorem Replies.disclosed {outs outs' : List Output} (h : Replies conn outs outs') :
    disclosed outs' = disclosed outs := by
  obtain ⟨texts, rfl⟩ := h
  simp [ChatServer.disclosed, List.filterMap_map]

theorem handleJoin_disclosed : disclosed (handleJoin command conn me w).out =
    disclosed w.out ++ (shownByJoin command me w).map (conn.fd, ·) := by
  unfold shownByJoin
  cases hjoin : roomJoined command me w with
  | none => exact (handleJoin_of_not_joined hjoin).disclosed.trans (List.append_nil _).symm
  | some room =>
    rw [handleJoin_of_joined hjoin]
    exact welcome_disclosed (moveTo_roomName _ _ _ _) (moveTo_history _ _ _ _)

theorem handleAccept_disclosed : disclosed (handleAccept env command conn me w).out =
    disclosed w.out ++ (shownByAccept env command me w).map (conn.fd, ·) := by
  unfold shownByAccept
  cases haccept : roomAccepted env command me w with
  | none =>
    have hanswers : AnswersOnce conn w.out (handleAccept env command conn me w).out :=
      handleAccept_of_not_accepted haccept
    exact hanswers.answers.disclosed.trans (List.append_nil _).symm
  | some room =>
    obtain ⟨db, heq⟩ := handleAccept_of_accepted conn haccept
    rw [heq]
    exact welcome_disclosed (w := { w with db }) (moveTo_roomName _ _ _ _) (moveTo_history _ _ _ _)

theorem historyReply_disclosed {n : Text} {cursor : ℤ} {limit : ℕ} {db : Database}
    {channel : Channel} :
    disclosed ((historyReply env n cursor limit db).map (⟨fd, channel, ·⟩)) =
      ((dbLoadHistoryBefore env n cursor limit db).1.map fun m => .stored n m.id).map (fd, ·) := by
  unfold historyReply
  rcases dbLoadHistoryBefore env n cursor limit db with ⟨hist, next⟩
  simp only [List.map_append, disclosed_append, List.map_map]
  have hbody (f : Message → Text) : disclosed (hist.map ((⟨fd, channel, ·⟩) ∘
      fun m => ⟨f m, some (.stored n m.id)⟩)) =
        hist.map ((fd, ·) ∘ fun m => Carried.stored n m.id) := by
    simp [disclosed, List.filterMap_map, Function.comp_def]
  rw [hbody]
  exact List.append_nil _

theorem handleHistory_disclosed : disclosed (handleHistory env command conn me w).out =
    disclosed w.out ++ (shownByHistory env command me w).map (conn.fd, ·) := by
  unfold handleHistory shownByHistory
  cases hname : command.arg1.or ((w.client me).currentRoom.map fun r => (w.room r).roomName) with
  | none => exact disclosed_reply.trans (List.append_nil _).symm
  | some roomName =>
    simp only
    cases hfind : (findRoom (some roomName) w.reg).2 with
    | none => exact disclosed_reply.trans (List.append_nil _).symm
    | some room =>
      rw [connSend_eq, emit_out, disclosed_append, historyReply_disclosed]
      rfl

theorem stored_of_shown {carried : Carried} (h : carried ∈ shown env command me w) :
    ∃ n id, carried = .stored n id := by
  have hroom {r : Room} (h : carried ∈ shownByRoom r) : ∃ n id, carried = .stored n id := by
    obtain ⟨id, -, rfl⟩ := List.mem_map.mp h
    exact ⟨_, id, rfl⟩
  unfold shown at h
  split at h
  · unfold shownByJoin at h
    split at h
    · cases h
    · exact hroom h
  · unfold shownByAccept at h
    split at h
    · cases h
    · exact hroom h
  · unfold shownByHistory at h
    split at h
    · cases h
    · split_ifs at h
      · obtain ⟨m, -, rfl⟩ := List.mem_map.mp h
        exact ⟨_, _, rfl⟩
      · cases h
  · cases h

theorem dispatch_disclosed : disclosed (dispatch env command conn me w).out =
    disclosed w.out ++ discloses env command conn me w := by
  have hnil {outs outs' : List Output} (h : disclosed outs' = disclosed outs) :
      disclosed outs' = disclosed outs ++ [] := h.trans (List.append_nil _).symm
  unfold dispatch discloses shown
  cases command.type with
  | invalid => exact hnil disclosed_reply
  | register => exact hnil handleRegister_answersOnce.answers.disclosed
  | login => exact hnil handleLogin_answersOnce.answers.disclosed
  | reconnect => exact hnil handleReconnect_answersOnce.answers.disclosed
  | create => exact hnil handleCreate_answersOnce.answers.disclosed
  | join => exact handleJoin_disclosed
  | leave => exact hnil handleLeave_disclosed
  | kick => exact hnil handleKick_disclosed
  | promote => exact hnil handlePromote_disclosed
  | msg => exact handleMsg_disclosed
  | edit => exact hnil handleEdit_disclosed
  | delete => exact hnil handleDelete_disclosed
  | history => exact handleHistory_disclosed
  | pm => exact hnil handlePm_disclosed
  | rooms => exact hnil disclosed_reply
  | status => exact hnil handleStatus_disclosed
  | who => exact hnil handleWho_answersOnce.answers.disclosed
  | logout => exact hnil handleLogout_disclosed
  | logoutAll => exact hnil handleLogoutAll_disclosed
  | sessions => exact hnil disclosed_reply
  | revokeSession => exact hnil handleRevokeSession_answersOnce.answers.disclosed
  | read => exact hnil handleRead_disclosed
  | typing => exact hnil handleTyping_disclosed
  | stopTyping => exact hnil handleStopTyping_disclosed
  | block => exact hnil handleBlock_answersOnce.answers.disclosed
  | unblock => exact hnil handleUnblock_answersOnce.answers.disclosed
  | mute => exact hnil handleMute_answersOnce.answers.disclosed
  | unmute => exact hnil handleUnmute_answersOnce.answers.disclosed
  | ban => exact hnil handleBan_disclosed
  | demote => exact hnil handleDemote_answersOnce.answers.disclosed
  | createPrivate => exact hnil handleCreatePrivate_answersOnce.answers.disclosed
  | invite => exact hnil handleInvite_disclosed
  | accept => exact handleAccept_disclosed
  | decline => exact hnil handleDecline_answersOnce.answers.disclosed

/-- A command discloses its own message to the members, or stored messages to its sender. -/
theorem mem_discloses {carried : Carried} :
    (fd, carried) ∈ discloses env command conn me w ↔
      (command.type = .msg ∧ ∃ room msgId, messageOf env command me w = some (room, msgId) ∧
        fd ∈ broadcastFds room conn.fd w.reg ∧ carried = .live room) ∨
      (fd = conn.fd ∧ carried ∈ shown env command me w) := by
  unfold discloses
  by_cases ht : command.type = .msg
  · simp only [ht, shown, List.not_mem_nil, and_false, or_false, true_and]
    cases hsent : messageOf env command me w with
    | none => simp
    | some p =>
      obtain ⟨room, msgId⟩ := p
      simp [and_comm, eq_comm]
  · have hshown : discloses env command conn me w =
        (shown env command me w).map (conn.fd, ·) := by
      unfold discloses
      cases htype : command.type <;> first | rfl | exact absurd htype ht
    rw [← discloses, hshown]
    simp [ht, eq_comm, and_comm]

/-- The client's command an event is, if it is one. -/
def commandOf (w : World) (e : Event) : Option (Conn × ClientPtr × Cmd) :=
  match e with
  | .line fd text =>
    match w.conns.get fd with
    | none => none
    | some conn => conn.me.map fun me => (conn, me, parseLine text)
  | _ => none

theorem commandOf_eq_some {e : Event} :
    commandOf w e = some (conn, me, command) ↔ Commands w e conn me command := by
  constructor
  · intro h
    cases e with
    | line fd text =>
      simp only [commandOf] at h
      cases hconn : w.conns.get fd with
      | none => rw [hconn] at h; cases h
      | some conn' =>
        rw [hconn] at h
        obtain ⟨me', hme, heq⟩ := Option.map_eq_some_iff.mp h
        cases heq
        obtain rfl := w.conns.fd_eq _ _ hconn
        exact ⟨text, rfl, hconn, hme, rfl⟩
    | accept fd ssl => cases h
    | disconnect fd => cases h
    | cleanup => cases h
    | shutdown => cases h
  · rintro ⟨text, rfl, hconn, hme, rfl⟩
    simp [commandOf, hconn, hme]

theorem step_disclosed (w : World) (env : Env) (e : Event) :
    disclosed (step w (env, e)).out = (match commandOf w e with
      | none => []
      | some (conn, me, command) => discloses env command conn me w) := by
  have hdisc {conn : Conn} {me : ClientPtr} {text : Text} (ht : (parseLine text).type = .invalid) :
      discloses env (parseLine text) conn me w = [] := by
    simp [discloses, shown, ht]
  cases e with
  | accept fd ssl =>
    simp only [step, handleEvent, commandOf]
    by_cases hopen : fd < 0 ∨ w.conns.get fd ≠ none
    · rw [if_pos hopen]
      rfl
    · rw [if_neg hopen]
      exact disclosed_plain
  | line fd text =>
    simp only [step, handleEvent, commandOf]
    cases hconn : w.conns.get fd with
    | none => rfl
    | some conn =>
      simp only [processLine]
      cases hme : conn.me with
      | none =>
        simp only [Option.map_none]
        split_ifs
        · exact disclosed_reply
        · exact disclosed_reply
        · exact dispatchAnonymous_answersOnce.answers.disclosed
      | some me =>
        simp only [Option.map_some]
        split_ifs with hhealth hready
        · rw [hdisc hhealth.1]
          exact disclosed_reply
        · rw [hdisc hready.1]
          exact disclosed_reply
        · exact dispatch_disclosed
  | disconnect fd =>
    simp only [step, handleEvent, commandOf]
    cases hconn : w.conns.get fd with
    | none => rfl
    | some conn =>
      simp only [disconnectCleanup]
      cases hme : conn.me with
      | none => rfl
      | some me => exact leaveLastRoom_disclosed
  | cleanup => rfl
  | shutdown => exact disclosed_plain

/-- The lines of an event that carry messages are those that its command discloses. -/
theorem carries_iff {e : Event} {carried : Carried} :
    (∃ o ∈ (step w (env, e)).out, o.fd = fd ∧ o.line.carries = some carried) ↔
      ∃ conn me command, Commands w e conn me command ∧
        (fd, carried) ∈ discloses env command conn me w := by
  rw [← mem_disclosed, step_disclosed]
  cases hcmd : commandOf w e with
  | none =>
    refine iff_of_false (List.not_mem_nil) ?_
    rintro ⟨conn, me, command, h, -⟩
    rw [commandOf_eq_some.mpr h] at hcmd
    cases hcmd
  | some p =>
    obtain ⟨conn, me, command⟩ := p
    constructor
    · exact fun h => ⟨conn, me, command, commandOf_eq_some.mp hcmd, h⟩
    · rintro ⟨conn', me', command', h', hmem⟩
      obtain ⟨rfl, rfl, rfl⟩ := (commandOf_eq_some.mp hcmd).unique h'
      exact hmem

end ChatServer
