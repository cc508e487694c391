import ChatServer.Membership.Projection

/-! # Commands that keep the roster

Messages, presence, moderation of the database, and list replies: no
connection, client, room or membership changes.
-/

namespace ChatServer

variable {env : Env} {w : World} {command : Cmd} {conn : Conn} {me : ClientPtr} {room : RoomPtr}

namespace World

@[simp] theorem roster_emit (outs : List Output) : (w.emit outs).roster = w.roster := rfl

@[simp] theorem roster_db (db : Database) : { w with db }.roster = w.roster := rfl

end World

open World

@[simp] theorem handleMsg_roster : (handleMsg env command conn me w).roster = w.roster := by
  unfold handleMsg
  split
  · rfl
  · split
    · exact rosterOf_rateLimitCheck ‹_›
    · rename_i hrate
      split
      · exact rosterOf_rateLimitCheck hrate
      · split_ifs
        · exact rosterOf_rateLimitCheck hrate
        · exact rosterOf_roomAddHistory.trans (rosterOf_rateLimitCheck hrate)

@[simp] theorem handleEdit_roster : (handleEdit env command conn me w).roster = w.roster := by
  unfold handleEdit
  split
  · rfl
  · split
    · simp only
      split_ifs
      · rfl
      · rfl
      · split <;> exact rosterOf_roomEditMessage ‹_›
    · rfl

@[simp] theorem handleDelete_roster : (handleDelete env command conn me w).roster = w.roster := by
  unfold handleDelete
  split
  · rfl
  · split
    · rfl
    · simp only
      split_ifs
      · rfl
      · split <;> exact rosterOf_roomDeleteMessage ‹_›

@[simp] theorem handleHistory_roster :
    (handleHistory env command conn me w).roster = w.roster := by
  unfold handleHistory
  split
  · rfl
  · split <;> rfl

@[simp] theorem handlePm_roster : (handlePm env command conn me w).roster = w.roster := by
  unfold handlePm
  split
  · rfl
  · split
    · rfl
    · split_ifs
      · rfl
      · split
        · exact rosterOf_rateLimitCheck ‹_›
        · rename_i hrate
          split <;> exact rosterOf_rateLimitCheck hrate

@[simp] theorem handleRead_roster : (handleRead env command conn me w).roster = w.roster := by
  unfold handleRead
  split
  · rfl
  · simp only
    split_ifs
    · rfl
    · split
      · split <;> rfl
      · rfl

@[simp] theorem handleStatus_roster : (handleStatus command conn me w).roster = w.roster := by
  unfold handleStatus
  split
  · rfl
  · split
    · rfl
    · have hset (status : PresenceStatus) : rosterOf (w.reg.modifyClient me fun client =>
          { client with status }) w.conns = w.roster :=
        rosterOf_modifyClient fun _ => ⟨rfl, rfl, rfl⟩
      simp only
      split
      · exact hset _
      · split_ifs <;> exact hset _

@[simp] theorem handleTyping_roster : (handleTyping env conn me w).roster = w.roster := by
  unfold handleTyping
  split
  · rfl
  · simp only
    split_ifs <;> rfl

@[simp] theorem handleStopTyping_roster : (handleStopTyping conn me w).roster = w.roster := by
  unfold handleStopTyping
  simp only
  split <;> rfl

@[simp] theorem handleRooms_roster : (handleRooms command conn w).roster = w.roster := rfl

@[simp] theorem handleWho_roster : (handleWho command conn me w).roster = w.roster := by
  unfold handleWho
  split <;> rfl

@[simp] theorem handleSessions_roster : (handleSessions env conn me w).roster = w.roster := rfl

@[simp] theorem handleRevokeSession_roster :
    (handleRevokeSession env command conn w).roster = w.roster := by
  unfold handleRevokeSession
  split
  · rfl
  · split <;> rfl

@[simp] theorem replyResult_roster {status err : Text} {result : Bool × Database} :
    (replyResult conn status err result w).roster = w.roster := by
  unfold replyResult
  split_ifs <;> rfl

@[simp] theorem handleBlock_roster : (handleBlock env command conn me w).roster = w.roster := by
  unfold handleBlock
  split <;> simp

@[simp] theorem handleUnblock_roster :
    (handleUnblock env command conn me w).roster = w.roster := by
  unfold handleUnblock
  split <;> simp

@[simp] theorem handleMute_roster : (handleMute env command conn me w).roster = w.roster := by
  unfold handleMute
  split
  · rfl
  · simp only
    split_ifs
    · rfl
    · split <;> simp

@[simp] theorem handleUnmute_roster : (handleUnmute env command conn me w).roster = w.roster := by
  unfold handleUnmute
  split
  · rfl
  · split <;> simp

@[simp] theorem handleDemote_roster : (handleDemote env command conn me w).roster = w.roster := by
  unfold handleDemote
  split
  · rfl
  · simp only
    split_ifs
    · rfl
    · split
      · rfl
      · split_ifs <;> rfl

@[simp] theorem handleInvite_roster : (handleInvite env command conn me w).roster = w.roster := by
  unfold handleInvite
  split
  · rfl
  · simp only
    split_ifs
    · rfl
    · split
      · rfl
      · split_ifs
        · rfl
        · split
          · split <;> rfl
          · rfl

@[simp] theorem handleDecline_roster :
    (handleDecline env command conn me w).roster = w.roster := by
  unfold handleDecline
  split <;> rfl

end ChatServer
