import ChatServer.Access.Disclosure
import ChatServer.History.LastN

/-! # The lines the server prints

All but five commands print lines made of protocol words, names, numbers and
stored messages. MSG, EDIT and PM also print the text of their own line, and
ROOMS and WHO print a list.
-/

namespace ChatServer

open World

/-- A status or error word. -/
def Plain (code : Text) : Prop := code.length ≤ 32 ∧ '\n' ∉ code

instance (code : Text) : Decidable (Plain code) := inferInstanceAs (Decidable (_ ∧ _))

/-- The lines that do not depend on the length of a text or of a list. -/
inductive Short (env : Env) (w : World) : Text → Prop
  | ok (code : Text) (h : Plain code) : Short env w (formatOkReply maxLineLen code)
  | err (code : Text) (h : Plain code) : Short env w (formatErrReply maxLineLen code)
  | session (status token : Text) (h : Plain status) (htoken : token ∈ env.tokens) :
      Short env w (formatOkSession maxLineLen status token)
  | health : Short env w (snprintf maxLineLen (lineOf ["OK HEALTH".toList,
      "uptime=".toList ++ decimal (env.now - w.uptimeStart), "active=0".toList]))
  | notice (c : ClientPtr) (action : Text) (h : Plain action) (r : RoomPtr) :
      Short env w (formatNotice maxLineLen (w.client c).clientName action (w.room r).roomName)
  | deleted (s : Text) : Short env w (formatDeletedReply maxLineLen (atoll s))
  | receipt (s : Text) (c : ClientPtr) : Short env w
      (snprintf maxLineLen (lineOf [replyReadReceipt, decimal (atoll s), (w.client c).clientName]))
  | typing (word : Text) (h : word = replyTyping ∨ word = replyStopTyping) (c : ClientPtr) :
      Short env w (snprintf maxLineLen (lineOf [word, (w.client c).clientName]))
  | invite (c : ClientPtr) (r : RoomPtr) : Short env w
      (snprintf maxLineLen (lineOf [replyInvite, (w.client c).clientName, (w.room r).roomName]))
  | replay (r : RoomPtr) (line : Line) (h : line ∈ historyLines (w.room r)) :
      Short env w line.bytes
  | history (n : Text) (cursor : ℤ) (limit : ℕ) (found : (findRoom (some n) w.reg).2.isSome)
      (hlimit : limit ≤ 100) (line : Line) (h : line ∈ historyReply env n cursor limit w.db) :
      Short env w line.bytes
  | sessions (c : ClientPtr) : Short env w (sessionsReply env (w.client c).clientName w.db).text

/-- All strings handed to `conn_send`, `send` and `room_broadcast` meet a condition. -/
def Prints (S : Text → Prop) (w : World) : Prop :=
  (∀ o ∈ w.out, S o.line.bytes) ∧ ∀ t ∈ w.broadcasts, S t

instance (S : Text → Prop) [DecidablePred S] (w : World) : Decidable (Prints S w) :=
  inferInstanceAs (Decidable (_ ∧ _))

section Commands

variable (env : Env) (command : Cmd) (conn : Conn) (me : ClientPtr) (w : World)

/-- The room in which an EDIT changes a message, its id and the new text. -/
def editOf : Option (RoomPtr × ℤ × Text) :=
  match (w.client me).currentRoom, command.arg1, command.arg2 with
  | some room, some idStr, some newText =>
    if newText ≠ [] ∧ 0 < atoll idStr ∧ (roomEditMessage env room (atoll idStr)
        (w.client me).clientName newText w.db w.reg).1 = .ok then
      some (room, atoll idStr, newText)
    else none
  | _, _, _ => none

/-- The client a PM is sent to, and its text. -/
def privateOf : Option (ClientPtr × Text) :=
  match command.arg1, command.arg2 with
  | some targetName, some text =>
    if text ≠ [] ∧ (rateLimitCheck env me w.reg).1 then
      (findClient (some targetName) w.reg).2.map (·, text)
    else none
  | _, _ => none

/-- The line of a command that may be long, be there somebody to receive it or not. -/
def longLine : Option Text :=
  match command.type with
  | .msg =>
    match messageOf env command me w, command.arg1 with
    | some (_, msgId), some text =>
      some (formatMsgReplyId maxLineLen msgId (w.client me).clientName text)
    | _, _ => none
  | .edit =>
    (editOf env command me w).map fun p => formatEditedReply maxLineLen p.2.1 p.2.2
  | .pm =>
    (privateOf env command me w).map fun p => formatPmReply maxLineLen (w.client me).clientName p.2
  | .rooms => some (roomsReply command w.reg).text
  | .who => (w.client me).currentRoom.map fun room => (whoReply command room w.reg).text
  | _ => none

end Commands

variable {S : Text → Prop} {env : Env} {w : World} {command : Cmd} {conn : Conn} {me : ClientPtr}
  {r : RoomPtr} {bytes text user action : Text} {fd : Fd} {fds : List Fd} {line : Line}
  {lines : List Line} {outs : List Output} {reg : Registry} {db : Database}

/-! ## The ways of sending -/

theorem prints_emit :
    Prints S (w.emit outs) ↔ Prints S w ∧ ∀ o ∈ outs, S o.line.bytes := by
  simp only [Prints, emit_out, emit_broadcasts, List.mem_append, or_imp, forall_and]
  exact and_right_comm

theorem prints_connSend : Prints S (w.connSend conn lines) ↔
    Prints S w ∧ ∀ line ∈ lines, S line.bytes := by
  simp [prints_emit]

theorem prints_reply : Prints S (w.reply conn text) ↔ Prints S w ∧ S text := by
  simp [prints_emit]

theorem prints_rawSend : Prints S (w.rawSend fds [line]) ↔
    Prints S w ∧ (fds ≠ [] → S line.bytes) := by
  rw [rawSend_eq, prints_emit]
  refine and_congr_right fun _ => ?_
  simp only [List.map_cons, List.map_nil, List.mem_flatMap, List.mem_singleton,
    forall_exists_index, and_imp]
  constructor
  · intro h hne
    obtain ⟨fd, hfd⟩ := List.exists_mem_of_ne_nil fds hne
    exact h _ fd hfd rfl
  · rintro h _ fd hfd rfl
    exact h (List.ne_nil_of_mem hfd)

theorem prints_broadcast : Prints S (w.broadcast r line fd) ↔ Prints S w ∧ S line.bytes := by
  rw [World.broadcast, prints_rawSend]
  simp only [Prints, List.mem_append, List.mem_singleton, or_imp, forall_and, forall_eq]
  exact ⟨fun h => ⟨⟨h.1.1, h.1.2.1⟩, h.1.2.2⟩, fun h => ⟨⟨h.1.1, h.1.2, h.2⟩, fun _ => h.2⟩⟩

theorem prints_sendHistory : Prints S (w.sendHistory r fd) ↔
    Prints S w ∧ ∀ line ∈ historyLines (w.room r), S line.bytes := by
  simp [prints_emit, World.room]

theorem Prints.notice (hw : Prints S w)
    (h : S (formatNotice maxLineLen user action (w.room r).roomName)) :
    Prints S (w.notice r user action fd) := prints_broadcast.mpr ⟨hw, h⟩

/-! ## Error words -/

theorem plain_registerErr (err : ClientErr) : Plain (registerErr err) := by
  cases err <;> decide

theorem plain_loginErr (err : ClientErr) : Plain (loginErr err) := by
  cases err <;> decide

theorem plain_reconnectErr (err : ClientErr) : Plain (reconnectErr err) := by
  cases err <;> decide

theorem plain_createRoomErr (err : RoomErr) : Plain (createRoomErr err) := by
  cases err <;> decide

theorem plain_createMemberErr (err : RoomErr) : Plain (createMemberErr err) := by
  cases err <;> decide

theorem plain_joinErr (err : RoomErr) : Plain (joinErr err) := by
  cases err <;> decide

theorem plain_joinLeaveErr (err : RoomErr) : Plain (joinLeaveErr err) := by
  cases err <;> decide

theorem plain_joinFindErr (err : RoomErr) : Plain (joinFindErr err) := by
  cases err <;> decide

theorem plain_changeErr (err : ChangeResult) : Plain (changeErr err) := by
  cases err <;> decide

/-! ## Commands that print short lines only -/

theorem insertSession_token {username token : Text} {tokens : List Text} {db' : Database}
    (h : insertSession env username tokens db = (some token, db')) :
    token ∈ tokens := by
  induction tokens with
  | nil => cases h
  | cons t tokens ih =>
    unfold insertSession at h
    split at h
    · split at h
      · obtain rfl := Option.some.inj (congrArg Prod.fst h)
        exact List.mem_cons_self
      · exact List.mem_cons_of_mem _ (ih h)
    · cases h

theorem historyLimit_le (s : Option Text) : historyLimit s ≤ 100 := by
  unfold historyLimit
  simp only
  split_ifs <;> omega

section Short

variable (hS : ∀ t, Short env w t → S t)
include hS

theorem Prints.ok {w' : World} (hw : Prints S w') {code : Text} (h : Plain code) :
    Prints S (w'.replyOk conn code) := prints_reply.mpr ⟨hw, hS _ (.ok code h)⟩

theorem Prints.err {w' : World} (hw : Prints S w') {code : Text} (h : Plain code) :
    Prints S (w'.replyErr conn code) := prints_reply.mpr ⟨hw, hS _ (.err code h)⟩

theorem Prints.errTo {w' : World} (hw : Prints S w') {code : Text} (h : Plain code) :
    Prints S (w'.rawSend fds [{ bytes := formatErrReply maxLineLen code }]) :=
  prints_rawSend.mpr ⟨hw, fun _ => hS _ (.err code h)⟩

theorem Prints.noticeOf {w' : World} (hw : Prints S w') (c : ClientPtr) (h : Plain action)
    (hname : (w'.room r).roomName = (w.room r).roomName) :
    Prints S (w'.notice r (w.client c).clientName action fd) :=
  hw.notice (hname ▸ hS _ (.notice c action h r))

theorem Prints.grantSession {w' : World} (hw : Prints S w') {status username : Text}
    (h : Plain status) : Prints S (grantSession env conn status username w') := by
  unfold ChatServer.grantSession dbCreateSession
  split
  · rename_i token db hgrant
    exact prints_reply.mpr ⟨hw, hS _ (.session status token h (insertSession_token hgrant))⟩
  · exact Prints.ok hS hw h

variable (hw : Prints S w)
include hw

theorem handleRegister_prints : Prints S (handleRegister env command conn w) := by
  unfold handleRegister
  split_ifs
  · exact .err hS hw (by decide)
  · split
    · split
      · exact .err hS hw (by decide)
      · exact .err hS hw (by decide)
      · split_ifs
        · exact .err hS hw (by decide)
        · split
          · have hstatus : Plain okRegistered := by decide
            refine Prints.grantSession hS ?_ hstatus
            exact hw
          · rename_i err _ _ _ _
            exact .err hS hw (plain_registerErr _)
    · exact .err hS hw (by decide)

theorem handleLogin_prints : Prints S (handleLogin env command conn w) := by
  unfold handleLogin
  split_ifs
  · exact .err hS hw (by decide)
  · split
    · split
      · exact .err hS hw (by decide)
      · exact .err hS hw (by decide)
      · exact .err hS hw (by decide)
      · split
        · have hstatus : Plain okLoggedIn := by decide
          refine Prints.grantSession hS ?_ hstatus
          exact hw
        · rename_i err _ _ _ _
          exact .err hS hw (plain_loginErr _)
    · exact .err hS hw (by decide)

theorem handleReconnect_prints : Prints S (handleReconnect env command conn w) := by
  unfold handleReconnect
  split_ifs
  · exact .err hS hw (by decide)
  · split
    · exact .err hS hw (by decide)
    · split
      · exact .err hS hw (by decide)
      · exact .err hS hw (by decide)
      · exact .err hS hw (by decide)
      · split_ifs
        · exact .err hS hw (by decide)
        · split
          · have hstatus : Plain okReconnected := by decide
            refine Prints.grantSession hS ?_ hstatus
            exact hw
          · rename_i err _ _ _ _
            exact .err hS hw (plain_reconnectErr _)

theorem handleCreate_prints : Prints S (handleCreate env command conn me w) := by
  unfold handleCreate
  split
  · exact .err hS hw (by decide)
  · split
    · split
      · exact .ok hS hw (by decide)
      · rename_i err _ _ _
        exact .err hS hw (plain_createMemberErr _)
    · rename_i err _ _ _ _
      exact .err hS hw (plain_createRoomErr _)

theorem handleCreatePrivate_prints : Prints S (handleCreatePrivate env command conn me w) := by
  unfold handleCreatePrivate
  split
  · exact .err hS hw (by decide)
  · split
    · split
      · exact Prints.ok hS hw (by decide)
      · exact .err hS hw (by decide)
    · exact .err hS hw (by decide)
    · exact .err hS hw (by decide)

theorem handleLeave_prints : Prints S (handleLeave conn me w) := by
  unfold handleLeave
  split
  · exact .err hS hw (by decide)
  · rename_i room _
    split
    · rename_i reg hremove
      have hreg : reg = _ := (congrArg Prod.snd hremove).symm.trans roomRemoveMember_snd
      have hleft : Plain okLeft := by decide
      have hok : Prints S ({ w with reg := reg.setCurrentRoom me none }.replyOk conn okLeft) :=
        Prints.ok hS hw hleft
      refine Prints.noticeOf hS hok me hleft ?_
      simp [World.room, hreg]
    · exact .err hS hw (by decide)

theorem handleKick_prints : Prints S (handleKick command conn me w) := by
  unfold handleKick
  split
  · exact .err hS hw (by decide)
  · split_ifs
    · exact .err hS hw (by decide)
    · split
      · exact .err hS hw (by decide)
      · split_ifs
        · exact .err hS hw (by decide)
        · split
          · exact .err hS hw (by decide)
          · rename_i target hfind
            obtain ⟨-, rfl⟩ := findClient_some hfind
            split_ifs
            · exact .err hS hw (by decide)
            · split
              · rename_i reg hremove
                have hreg : reg = _ := (congrArg Prod.snd hremove).symm.trans roomRemoveMember_snd
                have hkicked : Plain okKicked := by decide
                have hsent : Prints S ({ w with reg := reg.setCurrentRoom target none }.rawSend
                    [(w.client target).socketFd]
                    [{ bytes := formatErrReply maxLineLen okKicked }]) :=
                  Prints.errTo hS hw hkicked
                refine Prints.ok hS (Prints.noticeOf hS hsent target hkicked ?_) hkicked
                simp [World.room, hreg]
              · exact .err hS hw (by decide)

theorem handlePromote_prints : Prints S (handlePromote command conn me w) := by
  unfold handlePromote
  split
  · exact .err hS hw (by decide)
  · split_ifs
    · exact .err hS hw (by decide)
    · split
      · exact .err hS hw (by decide)
      · split
        · exact .err hS hw (by decide)
        · rename_i target hfind
          obtain ⟨-, rfl⟩ := findClient_some hfind
          split_ifs
          · exact .err hS hw (by decide)
          · have hpromoted : Plain okPromoted := by decide
            refine Prints.noticeOf hS (prints_rawSend.mpr ⟨?_, fun _ => ?_⟩) target hpromoted ?_
            · exact hw
            · exact hS _ (.ok _ hpromoted)
            simp [World.room]

theorem handleDelete_prints : Prints S (handleDelete env command conn me w) := by
  unfold handleDelete
  split
  · exact .err hS hw (by decide)
  · split
    · exact .err hS hw (by decide)
    · rename_i idStr _
      simp only
      split_ifs
      · exact .err hS hw (by decide)
      · split
        · have hsent : Plain okSent := by decide
          refine Prints.ok hS (prints_broadcast.mpr ⟨?_, ?_⟩) hsent
          · exact hw
          · exact hS _ (.deleted idStr)
        · rename_i err _ _ _ _
          exact .err hS hw (plain_changeErr _)

theorem handleRead_prints : Prints S (handleRead env command conn me w) := by
  unfold handleRead
  split
  · exact .err hS hw (by decide)
  · rename_i idStr _
    simp only
    split_ifs
    · exact .err hS hw (by decide)
    · split
      · refine .ok hS ?_ (by decide)
        split
        · exact hw
        · exact prints_broadcast.mpr ⟨hw, hS _ (.receipt idStr me)⟩
      · exact .err hS hw (by decide)

theorem handleStatus_prints : Prints S (handleStatus command conn me w) := by
  unfold handleStatus
  split
  · exact .err hS hw (by decide)
  · rename_i newStatus _
    split
    · exact .err hS hw (by decide)
    · rename_i status hparse
      have hplain : Plain newStatus := by
        unfold parseStatus at hparse
        split_ifs at hparse with h₁ h₂ h₃
        · exact h₁ ▸ by decide
        · exact h₂ ▸ by decide
        · exact h₃ ▸ by decide
      simp only
      split
      · exact .ok hS hw (by decide)
      · split_ifs
        · exact .ok hS hw (by decide)
        · refine Prints.notice (Prints.ok hS hw (by decide)) ?_
          have hname : (World.client (World.replyOk conn okStatusSet { w with
              reg := w.reg.modifyClient me fun client => { client with status } }) me).clientName =
              (w.client me).clientName := by
            simp [World.client]
          rw [hname]
          exact hS _ (.notice me newStatus hplain _)

theorem handleTyping_prints : Prints S (handleTyping env conn me w) := by
  unfold handleTyping
  split
  · exact .err hS hw (by decide)
  · refine .ok hS ?_ (by decide)
    split_ifs
    · exact prints_broadcast.mpr ⟨hw, hS _ (.typing _ (.inl rfl) me)⟩
    · exact hw

theorem handleStopTyping_prints : Prints S (handleStopTyping conn me w) := by
  unfold handleStopTyping
  refine .ok hS ?_ (by decide)
  split
  · exact hw
  · exact prints_broadcast.mpr ⟨hw, hS _ (.typing _ (.inr rfl) me)⟩

theorem leaveLastRoom_prints : Prints S (leaveLastRoom conn me w) := by
  unfold leaveLastRoom
  split
  · exact hw
  · rename_i room _
    have hleft : Plain okLeft := by decide
    have hset : Prints S { w with reg :=
        (roomRemoveMember (some room) (some me) w.reg).2.setCurrentRoom me none } := hw
    refine Prints.noticeOf hS hset me hleft ?_
    rw [roomRemoveMember_snd]
    simp [World.room]

theorem handleLogout_prints : Prints S (handleLogout conn me w) := by
  have hlogout : Plain replyLogout := by decide
  have hleft : Prints S (leaveLastRoom conn me w) := leaveLastRoom_prints hS hw
  exact prints_emit.mpr ⟨hleft, by simpa using hS _ (.ok replyLogout hlogout)⟩

theorem handleLogoutAll_prints : Prints S (handleLogoutAll env conn me w) := by
  have hlogout : Plain replyLogout := by decide
  have hleft : Prints S (leaveLastRoom conn me w) := leaveLastRoom_prints hS hw
  exact prints_emit.mpr ⟨hleft, by simpa using hS _ (.ok replyLogout hlogout)⟩

theorem handleRevokeSession_prints : Prints S (handleRevokeSession env command conn w) := by
  unfold handleRevokeSession
  split
  · exact .err hS hw (by decide)
  · split
    · exact .ok hS hw (by decide)
    · exact .err hS hw (by decide)
    · exact .err hS hw (by decide)

theorem replyResult_prints {status errCode : Text} {result : Bool × Database}
    (h : Plain status) (h' : Plain errCode) :
    Prints S (replyResult conn status errCode result w) := by
  unfold replyResult
  split_ifs
  · exact .ok hS hw h
  · exact .err hS hw h'

theorem handleBlock_prints : Prints S (handleBlock env command conn me w) := by
  unfold handleBlock
  split
  · exact .err hS hw (by decide)
  · exact replyResult_prints hS hw (by decide) (by decide)

theorem handleUnblock_prints : Prints S (handleUnblock env command conn me w) := by
  unfold handleUnblock
  split
  · exact .err hS hw (by decide)
  · exact replyResult_prints hS hw (by decide) (by decide)

theorem handleMute_prints : Prints S (handleMute env command conn me w) := by
  unfold handleMute
  split
  · exact .err hS hw (by decide)
  · simp only
    split_ifs
    · exact .err hS hw (by decide)
    · split
      · exact .err hS hw (by decide)
      · exact replyResult_prints hS hw (by decide) (by decide)

theorem handleUnmute_prints : Prints S (handleUnmute env command conn me w) := by
  unfold handleUnmute
  split
  · exact .err hS hw (by decide)
  · split
    · exact .err hS hw (by decide)
    · exact replyResult_prints hS hw (by decide) (by decide)

theorem handleBan_prints : Prints S (handleBan env command conn me w) := by
  unfold handleBan
  split
  · exact .err hS hw (by decide)
  · simp only
    split_ifs
    · exact .err hS hw (by decide)
    · split
      · exact .err hS hw (by decide)
      · split
        · refine .ok hS ?_ (by decide)
          unfold evictBanned
          split
          · exact hw
          · split_ifs
            · exact .errTo hS hw (by decide)
            · exact hw
        · exact .err hS hw (by decide)

theorem handleDemote_prints : Prints S (handleDemote env command conn me w) := by
  unfold handleDemote
  split
  · exact .err hS hw (by decide)
  · simp only
    split_ifs
    · exact .err hS hw (by decide)
    · split
      · exact .err hS hw (by decide)
      · split_ifs
        · exact .err hS hw (by decide)
        · exact .err hS hw (by decide)
        · exact .ok hS hw (by decide)

theorem handleInvite_prints : Prints S (handleInvite env command conn me w) := by
  unfold handleInvite
  split
  · exact .err hS hw (by decide)
  · simp only
    split_ifs
    · exact .err hS hw (by decide)
    · split
      · exact .err hS hw (by decide)
      · split_ifs
        · exact .err hS hw (by decide)
        · split
          · split
            · exact Prints.ok hS hw (by decide)
            · exact prints_rawSend.mpr ⟨Prints.ok hS hw (by decide), fun _ => hS _ (.invite me _)⟩
          · exact .err hS hw (by decide)

theorem handleDecline_prints : Prints S (handleDecline env command conn me w) := by
  unfold handleDecline
  split
  · exact .err hS hw (by decide)
  · exact .ok hS hw (by decide)

/-! ## Entering a room, and lists -/

omit hw in
theorem Prints.welcome {w' : World} (hw : Prints S w')
    (hname : (w'.room r).roomName = (w.room r).roomName)
    (hhist : (w'.room r).history = (w.room r).history)
    (hclient : (w'.client me).clientName = (w.client me).clientName) :
    Prints S (welcome conn me r w') := by
  have hlines : historyLines (w'.room r) = historyLines (w.room r) := by
    simp only [historyLines, hname, hhist]
  have hjoined : Plain okJoined := by decide
  have hok : Prints S (w'.replyOk conn okJoined) := Prints.ok hS hw hjoined
  have hsent : Prints S ((w'.replyOk conn okJoined).sendHistory r conn.fd) := by
    refine prints_sendHistory.mpr ⟨hok, fun line hline => ?_⟩
    exact hS _ (.replay r line (hlines ▸ hline))
  unfold ChatServer.welcome
  rw [hclient]
  refine hsent.noticeOf hS me hjoined ?_
  simpa [World.room] using hname

theorem joinLeave_prints : Prints S (joinLeave conn me w) := by
  unfold joinLeave
  split
  · exact hw
  · split
    · exact hw
    · exact .err hS hw (plain_joinLeaveErr _)

theorem handleJoin_prints : Prints S (handleJoin command conn me w) := by
  cases hjoin : roomJoined command me w with
  | some room =>
    rw [handleJoin_of_joined hjoin]
    refine Prints.welcome hS hw (moveTo_roomName _ _ _ _) (moveTo_history _ _ _ _) ?_
    exact moveTo_clientName _
  | none =>
    unfold handleJoin
    cases h₁ : command.arg1 with
    | none => exact .err hS hw (by decide)
    | some name =>
      have hleave : Prints S (joinLeave conn me w) := joinLeave_prints hS hw
      simp only
      split
      · rename_i room hfind
        split
        · rename_i hadd
          obtain ⟨hseated, hfound, hfree⟩ := joinLeave_add hfind hadd
          simp only [roomJoined, h₁, hfound] at hjoin
          rw [if_pos ⟨hseated, hfree⟩] at hjoin
          cases hjoin
        · exact .err hS hleave (plain_joinErr _)
      · exact .err hS hleave (plain_joinFindErr _)

theorem handleAccept_prints : Prints S (handleAccept env command conn me w) := by
  cases haccept : roomAccepted env command me w with
  | some room =>
    obtain ⟨db, heq⟩ := handleAccept_of_accepted conn haccept
    rw [heq]
    refine Prints.welcome hS hw (moveTo_roomName _ _ _ _) (moveTo_history _ _ _ _) ?_
    exact moveTo_clientName _
  | none =>
    unfold roomAccepted at haccept
    unfold handleAccept
    cases h₁ : command.arg1 with
    | none => exact .err hS hw (by decide)
    | some name =>
      by_cases hinv : inviteFind env name (w.client me).clientName w.db
      · simp only [h₁, hinv, if_true] at haccept
        simp only [hinv, Bool.not_true, Bool.false_eq_true, if_false, haccept]
        exact .err hS hw (by decide)
      · simp only [hinv, Bool.not_false, if_true]
        exact .err hS hw (by decide)

theorem handleHistory_prints : Prints S (handleHistory env command conn me w) := by
  unfold handleHistory
  split
  · exact .err hS hw (by decide)
  · rename_i roomName _
    simp only
    split
    · exact .err hS hw (by decide)
    · rename_i room hfind
      refine prints_connSend.mpr ⟨hw, fun line hline => ?_⟩
      exact hS _ (.history roomName _ _ (by rw [hfind]; rfl) (historyLimit_le _) line hline)

theorem handleSessions_prints : Prints S (handleSessions env conn me w) :=
  prints_reply.mpr ⟨hw, hS _ (.sessions me)⟩

/-! ## Commands that may print a long line -/

theorem handleMsg_prints (ht : command.type = .msg) :
    Prints S (handleMsg env command conn me w) ↔
      ∀ t, longLine env command me w = some t → S t := by
  unfold handleMsg longLine messageOf
  simp only [ht]
  cases hcur : (w.client me).currentRoom with
  | none => exact iff_of_true (.err hS hw (by decide)) (by simp)
  | some room =>
    rcases hrate : rateLimitCheck env me w.reg with ⟨ok, reg⟩
    cases h₁ : command.arg1 with
    | none =>
      cases ok with
      | false => exact iff_of_true (.err hS hw (by decide)) (by simp)
      | true => exact iff_of_true (.err hS hw (by decide)) (by simp)
    | some text =>
      cases ok with
      | false => exact iff_of_true (.err hS hw (by decide)) (by simp)
      | true =>
        by_cases htext : text = []
        · simp only [htext, if_true]
          exact iff_of_true (.err hS hw (by decide)) (by simp)
        · simp only [htext, if_false, if_pos roomAddHistory_id_pos]
          rw [replyOk_eq, prints_reply, prints_broadcast]
          have hsent : S (formatOkReply maxLineLen okSent) := hS _ (.ok okSent (by decide))
          simp only [Option.some.injEq, forall_eq']
          exact ⟨fun h => h.1.2, fun h => ⟨⟨hw, h⟩, hsent⟩⟩

theorem handleEdit_prints (ht : command.type = .edit) :
    Prints S (handleEdit env command conn me w) ↔
      ∀ t, longLine env command me w = some t → S t := by
  unfold handleEdit longLine editOf
  simp only [ht]
  cases hcur : (w.client me).currentRoom with
  | none => exact iff_of_true (.err hS hw (by decide)) (by simp)
  | some room =>
    cases h₁ : command.arg1 with
    | none => exact iff_of_true (.err hS hw (by decide)) (by simp)
    | some idStr =>
      cases h₂ : command.arg2 with
      | none => exact iff_of_true (.err hS hw (by decide)) (by simp)
      | some newText =>
        by_cases htext : newText = []
        · simp only [htext, if_true]
          exact iff_of_true (.err hS hw (by decide)) (by simp)
        by_cases hid : atoll idStr ≤ 0
        · simp only [htext, if_false, hid, if_true, not_lt.mpr hid, false_and, and_false]
          exact iff_of_true (.err hS hw (by decide)) (by simp)
        rcases hedit : roomEditMessage env room (atoll idStr) (w.client me).clientName newText
          w.db w.reg with ⟨res, db, reg⟩
        simp only [htext, if_false, hid, not_le.mp hid, true_and, ne_eq, not_false_eq_true, hedit]
        cases res with
        | ok =>
          simp only [if_true]
          rw [replyOk_eq, prints_reply, prints_broadcast]
          have hsent : S (formatOkReply maxLineLen okSent) := hS _ (.ok okSent (by decide))
          simp only [Option.map_some, Option.some.injEq, forall_eq']
          exact ⟨fun h => h.1.2, fun h => ⟨⟨hw, h⟩, hsent⟩⟩
        | notFound => exact iff_of_true (.err hS hw (plain_changeErr _)) (by simp)
        | alreadyDeleted => exact iff_of_true (.err hS hw (plain_changeErr _)) (by simp)
        | notAuthor => exact iff_of_true (.err hS hw (plain_changeErr _)) (by simp)

theorem handlePm_prints (ht : command.type = .pm) :
    Prints S (handlePm env command conn me w) ↔
      ∀ t, longLine env command me w = some t → S t := by
  unfold handlePm longLine privateOf
  simp only [ht]
  cases h₁ : command.arg1 with
  | none => exact iff_of_true (.err hS hw (by decide)) (by simp)
  | some targetName =>
    cases h₂ : command.arg2 with
    | none => exact iff_of_true (.err hS hw (by decide)) (by simp)
    | some text =>
      by_cases htext : text = []
      · simp only [htext, if_true]
        exact iff_of_true (.err hS hw (by decide)) (by simp)
      rcases hrate : rateLimitCheck env me w.reg with ⟨ok, reg⟩
      simp only [htext, if_false, ne_eq, not_false_eq_true, true_and]
      cases ok with
      | false => exact iff_of_true (.err hS hw (by decide)) (by simp)
      | true =>
        simp only [findClient_rateLimitCheck hrate, if_true]
        cases hfind : (findClient (some targetName) w.reg).2 with
        | none => exact iff_of_true (.err hS hw (by decide)) (by simp)
        | some target =>
          have hsent : S (formatOkReply maxLineLen okSent) := hS _ (.ok okSent (by decide))
          simp only [replyOk_eq, prints_reply, prints_rawSend, Option.map_some,
            Option.some.injEq, forall_eq']
          exact ⟨fun h => h.1.2 (by simp), fun h => ⟨⟨hw, fun _ => h⟩, hsent⟩⟩

omit hS in
theorem handleRooms_prints (ht : command.type = .rooms) :
    Prints S (handleRooms command conn w) ↔
      ∀ t, longLine env command me w = some t → S t := by
  simp only [handleRooms, prints_reply, longLine, ht, Option.some.injEq, forall_eq']
  exact and_iff_right hw

theorem handleWho_prints (ht : command.type = .who) :
    Prints S (handleWho command conn me w) ↔
      ∀ t, longLine env command me w = some t → S t := by
  unfold handleWho longLine
  simp only [ht]
  cases hcur : (w.client me).currentRoom with
  | none => exact iff_of_true (.err hS hw (by decide)) (by simp)
  | some room =>
    simp only [prints_reply, Option.map_some, Option.some.injEq, forall_eq']
    exact and_iff_right hw

/-! ## Events -/

/-- A command prints short lines, and its long line if it has one. -/
theorem dispatch_prints : Prints S (dispatch env command conn me w) ↔
    ∀ t, longLine env command me w = some t → S t := by
  have hshort {w' : World} (h : Prints S w') (ht : longLine env command me w = none) :
      Prints S w' ↔ ∀ t, longLine env command me w = some t → S t :=
    iff_of_true h (by simp [ht])
  unfold dispatch
  cases ht : command.type with
  | invalid => exact hshort (.err hS hw (by decide)) (by simp [longLine, ht])
  | register => exact hshort (handleRegister_prints hS hw) (by simp [longLine, ht])
  | login => exact hshort (handleLogin_prints hS hw) (by simp [longLine, ht])
  | reconnect => exact hshort (handleReconnect_prints hS hw) (by simp [longLine, ht])
  | create => exact hshort (handleCreate_prints hS hw) (by simp [longLine, ht])
  | join => exact hshort (handleJoin_prints hS hw) (by simp [longLine, ht])
  | leave => exact hshort (handleLeave_prints hS hw) (by simp [longLine, ht])
  | kick => exact hshort (handleKick_prints hS hw) (by simp [longLine, ht])
  | promote => exact hshort (handlePromote_prints hS hw) (by simp [longLine, ht])
  | msg => exact handleMsg_prints hS hw ht
  | edit => exact handleEdit_prints hS hw ht
  | delete => exact hshort (handleDelete_prints hS hw) (by simp [longLine, ht])
  | history => exact hshort (handleHistory_prints hS hw) (by simp [longLine, ht])
  | pm => exact handlePm_prints hS hw ht
  | rooms => exact handleRooms_prints hw ht
  | status => exact hshort (handleStatus_prints hS hw) (by simp [longLine, ht])
  | who => exact handleWho_prints hS hw ht
  | logout => exact hshort (handleLogout_prints hS hw) (by simp [longLine, ht])
  | logoutAll => exact hshort (handleLogoutAll_prints hS hw) (by simp [longLine, ht])
  | sessions => exact hshort (handleSessions_prints hS hw) (by simp [longLine, ht])
  | revokeSession => exact hshort (handleRevokeSession_prints hS hw) (by simp [longLine, ht])
  | read => exact hshort (handleRead_prints hS hw) (by simp [longLine, ht])
  | typing => exact hshort (handleTyping_prints hS hw) (by simp [longLine, ht])
  | stopTyping => exact hshort (handleStopTyping_prints hS hw) (by simp [longLine, ht])
  | block => exact hshort (handleBlock_prints hS hw) (by simp [longLine, ht])
  | unblock => exact hshort (handleUnblock_prints hS hw) (by simp [longLine, ht])
  | mute => exact hshort (handleMute_prints hS hw) (by simp [longLine, ht])
  | unmute => exact hshort (handleUnmute_prints hS hw) (by simp [longLine, ht])
  | ban => exact hshort (handleBan_prints hS hw) (by simp [longLine, ht])
  | demote => exact hshort (handleDemote_prints hS hw) (by simp [longLine, ht])
  | createPrivate => exact hshort (handleCreatePrivate_prints hS hw) (by simp [longLine, ht])
  | invite => exact hshort (handleInvite_prints hS hw) (by simp [longLine, ht])
  | accept => exact hshort (handleAccept_prints hS hw) (by simp [longLine, ht])
  | decline => exact hshort (handleDecline_prints hS hw) (by simp [longLine, ht])

end Short

theorem Short.of_out {broadcasts : List Text} {t : Text}
    (h : Short env { w with out := outs, broadcasts } t) : Short env w t := by
  cases h with
  | ok code h => exact .ok code h
  | err code h => exact .err code h
  | session status token h htoken => exact .session status token h htoken
  | health => exact .health
  | notice c action h r => exact .notice c action h r
  | deleted s => exact .deleted s
  | receipt s c => exact .receipt s c
  | typing word h c => exact .typing word h c
  | invite c r => exact .invite c r
  | replay r line h => exact .replay r line h
  | history n cursor limit found hlimit line h =>
    exact .history (w := w) n cursor limit found hlimit line h
  | sessions c => exact .sessions c

/-- The long line of an event, if it is a client's command with one. -/
def longLineOf (env : Env) (w : World) (e : Event) : Option Text :=
  match commandOf w e with
  | none => none
  | some (_, me, command) => longLine env command me w

/-- A line of a client makes the server print short lines, and its long line if it has one. -/
theorem step_line_prints {fd : Fd} (hS : ∀ t, Short env w t → S t) :
    Prints S (step w (env, .line fd text)) ↔
      ∀ t, longLineOf env w (.line fd text) = some t → S t := by
  have hS' : ∀ t, Short env { w with out := [], broadcasts := [] } t → S t := fun t ht =>
      hS t ht.of_out
  have hw : Prints S { w with out := [], broadcasts := [] } := by simp [Prints]
  have hinv {me : ClientPtr} (ht : (parseLine text).type = .invalid) :
      longLine env (parseLine text) me w = none := by
    simp [longLine, ht]
  simp only [step, handleEvent, longLineOf, commandOf]
  cases hconn : w.conns.get fd with
  | none => exact iff_of_true hw (by simp)
  | some conn =>
    have hhealth : Prints S (World.reply conn (snprintf maxLineLen (lineOf ["OK HEALTH".toList,
        "uptime=".toList ++ decimal (env.now - w.uptimeStart), "active=0".toList]))
        { w with out := [], broadcasts := [] }) := prints_reply.mpr ⟨hw, hS _ .health⟩
    have hready : Prints S (World.reply conn (snprintf maxLineLen (lineOf [replyOk,
        "READY ok".toList])) { w with out := [], broadcasts := [] }) :=
      prints_reply.mpr ⟨hw, hS _ (.ok _ (by decide))⟩
    simp only [processLine]
    cases hme : conn.me with
    | none =>
      refine iff_of_true ?_ (by simp)
      split_ifs
      · exact hhealth
      · exact hready
      · unfold dispatchAnonymous
        cases (parseLine text).type with
        | register => exact handleRegister_prints hS' hw
        | login => exact handleLogin_prints hS' hw
        | reconnect => exact handleReconnect_prints hS' hw
        | _ => exact Prints.err hS' hw (by decide)
    | some me =>
      simp only [Option.map_some]
      split_ifs with h₁ h₂
      · exact iff_of_true hhealth (by simp [hinv h₁.1])
      · exact iff_of_true hready (by simp [hinv h₂.1])
      · exact dispatch_prints hS' hw

end ChatServer
