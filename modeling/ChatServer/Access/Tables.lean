import ChatServer.Membership.Entry

/-! # The tables a command writes

Each command writes the tables of its own concern and leaves all others alone,
whatever its arguments and whichever of its statements fail.
-/

namespace ChatServer

open World

/-- The tables of the database. -/
inductive TableName where
  | messages | users | sessions | rooms | blocks | mutes | bans | roomRoles | invites | readReceipts
  deriving DecidableEq, Repr

/-- The table is the same in two databases. -/
def TableName.Kept (db db' : Database) : TableName → Prop
  | messages => db'.messages = db.messages
  | users => db'.users = db.users
  | sessions => db'.sessions = db.sessions
  | rooms => db'.rooms = db.rooms
  | blocks => db'.blocks = db.blocks
  | mutes => db'.mutes = db.mutes
  | bans => db'.bans = db.bans
  | roomRoles => db'.roomRoles = db.roomRoles
  | invites => db'.invites = db.invites
  | readReceipts => db'.readReceipts = db.readReceipts

/-- Every table that is not listed is the same. -/
def SameOutside (S : List TableName) (db db' : Database) : Prop := ∀ t ∉ S, t.Kept db db'

/-- The tables a command may write. -/
def CmdType.writes : CmdType → List TableName
  | register => [.users, .sessions]
  | login | reconnect | logoutAll | revokeSession => [.sessions]
  | msg | edit | delete => [.messages]
  | read => [.readReceipts]
  | block | unblock => [.blocks]
  | mute | unmute => [.mutes]
  | ban => [.bans]
  | demote => [.roomRoles]
  | createPrivate => [.rooms, .roomRoles]
  | invite | accept | decline => [.invites]
  | _ => []

namespace SameOutside

variable {S T : List TableName} {db db' db'' : Database}

theorem refl (S : List TableName) (db : Database) : SameOutside S db db := by
  intro t _
  cases t <;> rfl

theorem of_eq (h : db' = db) : SameOutside S db db' := h ▸ refl S db

theorem trans (h₁ : SameOutside S db db') (h₂ : SameOutside S db' db'') :
    SameOutside S db db'' := by
  intro t ht
  have hkept := h₁ t ht
  have hkept' := h₂ t ht
  cases t <;> exact Eq.trans hkept' hkept

theorem mono (h : SameOutside S db db') (hST : S ⊆ T) : SameOutside T db db' :=
  fun t ht => h t fun hs => ht (hST hs)

theorem only {t₀ : TableName} (h : ∀ t, t ≠ t₀ → t.Kept db db') : SameOutside [t₀] db db' :=
  fun t ht => h t fun he => ht (he ▸ List.mem_cons_self)

theorem messages (t : Messages) : SameOutside [.messages] db { db with messages := t } :=
  only fun t ht => by cases t <;> first | rfl | exact absurd rfl ht

theorem users (t : Library.Table User.username) : SameOutside [.users] db { db with users := t } :=
  only fun t ht => by cases t <;> first | rfl | exact absurd rfl ht

theorem sessions (t : Library.Table Session.token) :
    SameOutside [.sessions] db { db with sessions := t } :=
  only fun t ht => by cases t <;> first | rfl | exact absurd rfl ht

theorem rooms (t : Library.Table RoomRow.name) : SameOutside [.rooms] db { db with rooms := t } :=
  only fun t ht => by cases t <;> first | rfl | exact absurd rfl ht

theorem blocks (t : Library.Table (id : Block → Block)) :
    SameOutside [.blocks] db { db with blocks := t } :=
  only fun t ht => by cases t <;> first | rfl | exact absurd rfl ht

theorem mutes (t : Library.Table Sanction.key) : SameOutside [.mutes] db { db with mutes := t } :=
  only fun t ht => by cases t <;> first | rfl | exact absurd rfl ht

theorem bans (t : Library.Table Sanction.key) : SameOutside [.bans] db { db with bans := t } :=
  only fun t ht => by cases t <;> first | rfl | exact absurd rfl ht

theorem roomRoles (t : Library.Table RoleRow.key) :
    SameOutside [.roomRoles] db { db with roomRoles := t } :=
  only fun t ht => by cases t <;> first | rfl | exact absurd rfl ht

theorem invites (t : Library.Table Invite.key) :
    SameOutside [.invites] db { db with invites := t } :=
  only fun t ht => by cases t <;> first | rfl | exact absurd rfl ht

theorem readReceipts (t : Library.Table (id : Receipt → Receipt)) :
    SameOutside [.readReceipts] db { db with readReceipts := t } :=
  only fun t ht => by cases t <;> first | rfl | exact absurd rfl ht

end SameOutside

variable {env : Env} {w : World} {command : Cmd} {conn : Conn} {me : ClientPtr} {room : RoomPtr}
  {db db' : Database} {reg reg' : Registry}

/-! ## Functions of the database -/

section Store

variable {roomName user text token : Text} {msgId : ℤ}

theorem dbSaveMessage_writes :
    SameOutside [.messages] db (dbSaveMessage env roomName user text db).2 := by
  unfold dbSaveMessage
  split
  · exact .messages _
  · exact .refl _ _

theorem dbEditMessage_writes : SameOutside [.messages] db (dbEditMessage env msgId text db) := by
  unfold dbEditMessage
  split_ifs
  · exact .refl _ _
  · split
    · exact .messages _
    · exact .refl _ _

theorem dbDeleteMessage_writes : SameOutside [.messages] db (dbDeleteMessage env msgId db) := by
  unfold dbDeleteMessage
  split_ifs
  · exact .refl _ _
  · split
    · exact .messages _
    · exact .refl _ _

theorem roomAddHistory_writes :
    SameOutside [.messages] db (roomAddHistory env room user text db reg).2.1 := by
  unfold roomAddHistory
  simp only
  split_ifs <;> exact dbSaveMessage_writes

theorem roomEditMessage_writes {result : ChangeResult}
    (h : roomEditMessage env room msgId user text db reg = (result, db', reg')) :
    SameOutside [.messages] db db' := by
  unfold roomEditMessage at h
  split at h
  · obtain ⟨-, rfl, -⟩ := h
    exact dbEditMessage_writes
  · obtain ⟨-, rfl, -⟩ := h
    exact .refl _ _

theorem roomDeleteMessage_writes {isAdmin : Bool} {result : ChangeResult}
    (h : roomDeleteMessage env room msgId user isAdmin db reg = (result, db', reg')) :
    SameOutside [.messages] db db' := by
  unfold roomDeleteMessage at h
  split at h
  · obtain ⟨-, rfl, -⟩ := h
    exact dbDeleteMessage_writes
  · obtain ⟨-, rfl, -⟩ := h
    exact .refl _ _

theorem dbRegisterUser_writes : SameOutside [.users] db (dbRegisterUser env user text db).2 := by
  unfold dbRegisterUser
  split
  · split
    · exact .users _
    · exact .refl _ _
  · exact .refl _ _

theorem insertSession_writes (tokens : List Text) :
    SameOutside [.sessions] db (insertSession env user tokens db).2 := by
  induction tokens with
  | nil => exact .refl _ _
  | cons token tokens ih =>
    unfold insertSession
    split
    · split
      · exact .sessions _
      · exact ih
    · exact .refl _ _

theorem dbDeleteSession_writes : SameOutside [.sessions] db (dbDeleteSession env token db).2 := by
  unfold dbDeleteSession
  split
  · exact .sessions _
  · exact .refl _ _

theorem dbCleanupExpiredSessions_writes :
    SameOutside [.sessions] db (dbCleanupExpiredSessions env db).2 := by
  unfold dbCleanupExpiredSessions
  split
  · exact .sessions _
  · exact .refl _ _

theorem dbValidateSession_writes :
    SameOutside [.sessions] db (dbValidateSession env token db).2 := by
  unfold dbValidateSession
  split_ifs
  · exact .refl _ _
  · exact .refl _ _
  · split
    · exact .refl _ _
    · split_ifs
      · exact dbDeleteSession_writes
      · exact .refl _ _

theorem sessionRevoke_writes : SameOutside [.sessions] db (sessionRevoke env token db).2 := by
  have hdel : SameOutside [.sessions] db (dbDeleteSession env token db).2 := dbDeleteSession_writes
  unfold sessionRevoke
  split <;> rename_i h <;> rw [h] at hdel <;> exact hdel

theorem dbCreateRoom_writes : SameOutside [.rooms] db (dbCreateRoom env roomName user db).2 := by
  unfold dbCreateRoom
  split
  · split
    · exact .rooms _
    · exact .refl _ _
  · exact .refl _ _

theorem blockAdd_writes : SameOutside [.blocks] db (blockAdd env user text db).2 := by
  unfold blockAdd
  split_ifs
  · exact .refl _ _
  · split
    · exact .blocks _
    · exact .refl _ _

theorem blockRemove_writes : SameOutside [.blocks] db (blockRemove env user text db).2 := by
  unfold blockRemove
  split
  · exact .blocks _
  · exact .refl _ _

theorem muteAdd_writes : SameOutside [.mutes] db (muteAdd env roomName user text db).2 := by
  unfold muteAdd
  split
  · exact .mutes _
  · exact .refl _ _

theorem muteRemove_writes : SameOutside [.mutes] db (muteRemove env roomName user db).2 := by
  unfold muteRemove
  split
  · exact .mutes _
  · exact .refl _ _

theorem banAdd_writes : SameOutside [.bans] db (banAdd env roomName user text db).2 := by
  unfold banAdd
  split
  · exact .bans _
  · exact .refl _ _

theorem permissionSetRole_writes {role : RoomRole} :
    SameOutside [.roomRoles] db (permissionSetRole env roomName user role db) := by
  unfold permissionSetRole
  split
  · exact .roomRoles _
  · exact .refl _ _

theorem inviteCreate_writes :
    SameOutside [.invites] db (inviteCreate env roomName user text db).2 := by
  unfold inviteCreate
  split
  · exact .invites _
  · exact .refl _ _

theorem inviteAccept_writes : SameOutside [.invites] db (inviteAccept env roomName user db).2 := by
  unfold inviteAccept
  split
  · exact .invites _
  · exact .refl _ _

theorem receiptMarkRead_writes :
    SameOutside [.readReceipts] db (receiptMarkRead env msgId user db).2 := by
  unfold receiptMarkRead
  split_ifs
  · exact .refl _ _
  · split
    · exact .readReceipts _
    · exact .refl _ _

end Store

/-! ## Commands that write no table -/

theorem handleCreate_db : (handleCreate env command conn me w).db = w.db := by
  unfold handleCreate
  split
  · rfl
  · split
    · split <;> rfl
    · rfl

@[simp] theorem joinLeave_db : (joinLeave conn me w).db = w.db := by
  unfold joinLeave
  split
  · rfl
  · split <;> rfl

theorem handleJoin_db : (handleJoin command conn me w).db = w.db := by
  unfold handleJoin
  split
  · rfl
  · simp only
    split
    · split <;> simp [welcome, World.notice]
    · simp

theorem handleLeave_db : (handleLeave conn me w).db = w.db := by
  unfold handleLeave
  split
  · rfl
  · split <;> rfl

theorem handleKick_db : (handleKick command conn me w).db = w.db := by
  unfold handleKick
  split
  · rfl
  · split_ifs
    · rfl
    · split
      · rfl
      · split_ifs
        · rfl
        · split
          · rfl
          · split_ifs
            · rfl
            · split <;> rfl

theorem handlePromote_db : (handlePromote command conn me w).db = w.db := by
  unfold handlePromote
  split
  · rfl
  · split_ifs
    · rfl
    · split
      · rfl
      · split
        · rfl
        · split_ifs <;> rfl

theorem handleHistory_db : (handleHistory env command conn me w).db = w.db := by
  unfold handleHistory
  split
  · rfl
  · split <;> rfl

theorem handlePm_db : (handlePm env command conn me w).db = w.db := by
  unfold handlePm
  split
  · rfl
  · split
    · rfl
    · split_ifs
      · rfl
      · split
        · rfl
        · split <;> rfl

theorem handleStatus_db : (handleStatus command conn me w).db = w.db := by
  unfold handleStatus
  split
  · rfl
  · split
    · rfl
    · simp only
      split
      · rfl
      · split_ifs <;> rfl

theorem handleWho_db : (handleWho command conn me w).db = w.db := by
  unfold handleWho
  split <;> rfl

theorem handleLogout_db : (handleLogout conn me w).db = w.db := by
  simp [handleLogout, World.setMe]

theorem handleTyping_db : (handleTyping env conn me w).db = w.db := by
  unfold handleTyping
  split
  · rfl
  · simp only
    split_ifs <;> rfl

theorem handleStopTyping_db : (handleStopTyping conn me w).db = w.db := by
  unfold handleStopTyping
  simp only
  split <;> rfl

theorem disconnectCleanup_db : (disconnectCleanup conn w).db = w.db := by
  unfold disconnectCleanup
  simp only
  split <;> simp

/-! ## Accounts and sessions -/

theorem grantSession_writes {status user : Text} :
    SameOutside [.sessions] w.db (grantSession env conn status user w).db := by
  have hinsert : SameOutside [.sessions] w.db (insertSession env user env.tokens w.db).2 :=
    insertSession_writes env.tokens
  unfold grantSession
  split <;> rename_i h <;> unfold dbCreateSession at h <;> rw [h] at hinsert <;> exact hinsert

theorem handleRegister_writes :
    SameOutside CmdType.register.writes w.db (handleRegister env command conn w).db := by
  have hsession : [TableName.sessions] ⊆ CmdType.register.writes := by simp [CmdType.writes]
  unfold handleRegister
  split_ifs
  · exact .refl _ _
  · split
    · rename_i user pw _ _
      have hdb : ∀ {result db}, dbRegisterUser env user pw w.db = (result, db) →
          SameOutside CmdType.register.writes w.db db := by
        intro result db h
        have husers : SameOutside [.users] w.db (dbRegisterUser env user pw w.db).2 :=
          dbRegisterUser_writes
        rw [h] at husers
        exact husers.mono (by simp [CmdType.writes])
      split
      · exact hdb ‹_›
      · exact hdb ‹_›
      · rename_i h
        split_ifs
        · exact hdb h
        · split
          · exact (hdb h).trans (grantSession_writes.mono hsession)
          · exact hdb h
    · exact .refl _ _

theorem handleLogin_writes :
    SameOutside [.sessions] w.db (handleLogin env command conn w).db := by
  unfold handleLogin
  split_ifs
  · exact .refl _ _
  · split
    · split
      · exact .refl _ _
      · exact .refl _ _
      · exact .refl _ _
      · split
        · exact grantSession_writes
        · exact .refl _ _
    · exact .refl _ _

theorem handleReconnect_writes :
    SameOutside [.sessions] w.db (handleReconnect env command conn w).db := by
  unfold handleReconnect
  split_ifs
  · exact .refl _ _
  · split
    · exact .refl _ _
    · rename_i token _
      have hvalid : ∀ {result db},
          dbValidateSession env token (dbCleanupExpiredSessions env w.db).2 = (result, db) →
          SameOutside [.sessions] w.db db := by
        intro result db h
        have hvalidate : SameOutside [.sessions] w.db
            (dbValidateSession env token (dbCleanupExpiredSessions env w.db).2).2 :=
          dbCleanupExpiredSessions_writes.trans dbValidateSession_writes
        rwa [h] at hvalidate
      split
      · exact hvalid ‹_›
      · exact hvalid ‹_›
      · exact hvalid ‹_›
      · rename_i db h
        split_ifs
        · exact (hvalid h).trans dbDeleteSession_writes
        · split
          · exact ((hvalid h).trans dbDeleteSession_writes).trans grantSession_writes
          · exact hvalid h

theorem handleLogoutAll_writes :
    SameOutside [.sessions] w.db (handleLogoutAll env conn me w).db := by
  unfold handleLogoutAll
  simp only [leaveLastRoom_db]
  exact dbCleanupExpiredSessions_writes

theorem handleRevokeSession_writes :
    SameOutside [.sessions] w.db (handleRevokeSession env command conn w).db := by
  unfold handleRevokeSession
  split
  · exact .refl _ _
  · rename_i token _
    have hrevoke : SameOutside [.sessions] w.db (sessionRevoke env token w.db).2 :=
      sessionRevoke_writes
    split <;> rename_i h <;> rw [h] at hrevoke <;> exact hrevoke

/-! ## Messages -/

theorem handleMsg_writes :
    SameOutside [.messages] w.db (handleMsg env command conn me w).db := by
  unfold handleMsg
  split
  · exact .refl _ _
  · split
    · exact .refl _ _
    · split
      · exact .refl _ _
      · split_ifs
        · exact .refl _ _
        · exact roomAddHistory_writes

theorem handleEdit_writes :
    SameOutside [.messages] w.db (handleEdit env command conn me w).db := by
  unfold handleEdit
  split
  · exact .refl _ _
  · split
    · simp only
      split_ifs
      · exact .refl _ _
      · exact .refl _ _
      · split
        · exact roomEditMessage_writes ‹_›
        · exact roomEditMessage_writes ‹_›
    · exact .refl _ _

theorem handleDelete_writes :
    SameOutside [.messages] w.db (handleDelete env command conn me w).db := by
  unfold handleDelete
  split
  · exact .refl _ _
  · split
    · exact .refl _ _
    · simp only
      split_ifs
      · exact .refl _ _
      · split
        · exact roomDeleteMessage_writes ‹_›
        · exact roomDeleteMessage_writes ‹_›

theorem handleRead_writes :
    SameOutside [.readReceipts] w.db (handleRead env command conn me w).db := by
  unfold handleRead
  split
  · exact .refl _ _
  · rename_i idStr _
    have hread : SameOutside [.readReceipts] w.db
        (receiptMarkRead env (atoll idStr) (w.client me).clientName w.db).2 :=
      receiptMarkRead_writes
    simp only
    split_ifs
    · exact .refl _ _
    · split
      · rename_i h
        rw [h] at hread
        split <;> exact hread
      · rename_i h
        rw [h] at hread
        exact hread

/-! ## Moderation -/

@[simp] theorem replyResult_db {status err : Text} {result : Bool × Database} :
    (replyResult conn status err result w).db = result.2 := by
  unfold replyResult
  split_ifs <;> rfl

theorem handleBlock_writes :
    SameOutside [.blocks] w.db (handleBlock env command conn me w).db := by
  unfold handleBlock
  split
  · exact .refl _ _
  · rw [replyResult_db]
    exact blockAdd_writes

theorem handleUnblock_writes :
    SameOutside [.blocks] w.db (handleUnblock env command conn me w).db := by
  unfold handleUnblock
  split
  · exact .refl _ _
  · rw [replyResult_db]
    exact blockRemove_writes

theorem handleMute_writes :
    SameOutside [.mutes] w.db (handleMute env command conn me w).db := by
  unfold handleMute
  split
  · exact .refl _ _
  · simp only
    split_ifs
    · exact .refl _ _
    · split
      · exact .refl _ _
      · rw [replyResult_db]
        exact muteAdd_writes

theorem handleUnmute_writes :
    SameOutside [.mutes] w.db (handleUnmute env command conn me w).db := by
  unfold handleUnmute
  split
  · exact .refl _ _
  · split
    · exact .refl _ _
    · rw [replyResult_db]
      exact muteRemove_writes

theorem evictBanned_db {target : Text} : (evictBanned room target w).db = w.db := by
  unfold evictBanned
  split
  · rfl
  · split_ifs <;> rfl

theorem handleBan_writes :
    SameOutside [.bans] w.db (handleBan env command conn me w).db := by
  unfold handleBan
  split
  · exact .refl _ _
  · rename_i room _
    simp only
    split_ifs
    · exact .refl _ _
    · split
      · exact .refl _ _
      · rename_i target _
        have hban : SameOutside [.bans] w.db
            (banAdd env (w.room room).roomName (w.client me).clientName target w.db).2 :=
          banAdd_writes
        split <;> rename_i h <;> rw [h] at hban
        · rw [replyOk_eq, reply_eq, emit_db, evictBanned_db]
          exact hban
        · exact hban

theorem handleDemote_writes :
    SameOutside [.roomRoles] w.db (handleDemote env command conn me w).db := by
  unfold handleDemote
  split
  · exact .refl _ _
  · simp only
    split_ifs
    · exact .refl _ _
    · split
      · exact .refl _ _
      · split_ifs
        · exact .refl _ _
        · exact .refl _ _
        · exact permissionSetRole_writes

theorem handleCreatePrivate_writes : SameOutside CmdType.createPrivate.writes w.db
    (handleCreatePrivate env command conn me w).db := by
  have hrooms : [TableName.rooms] ⊆ CmdType.createPrivate.writes := by simp [CmdType.writes]
  have hroles : [TableName.roomRoles] ⊆ CmdType.createPrivate.writes := by simp [CmdType.writes]
  unfold handleCreatePrivate
  split
  · exact .refl _ _
  · split
    · split
      · exact (permissionSetRole_writes.mono hroles).trans (dbCreateRoom_writes.mono hrooms)
      · exact .refl _ _
    · exact .refl _ _
    · exact .refl _ _

theorem handleInvite_writes :
    SameOutside [.invites] w.db (handleInvite env command conn me w).db := by
  unfold handleInvite
  split
  · exact .refl _ _
  · rename_i room _
    simp only
    split_ifs
    · exact .refl _ _
    · split
      · exact .refl _ _
      · rename_i target _
        have hinvite : SameOutside [.invites] w.db
            (inviteCreate env (w.room room).roomName (w.client me).clientName target w.db).2 :=
          inviteCreate_writes
        split_ifs
        · exact .refl _ _
        · split <;> rename_i h <;> rw [h] at hinvite
          · split <;> exact hinvite
          · exact hinvite

theorem handleAccept_writes :
    SameOutside [.invites] w.db (handleAccept env command conn me w).db := by
  unfold handleAccept
  split
  · exact .refl _ _
  · simp only
    split_ifs
    · exact .refl _ _
    · split
      · exact inviteAccept_writes
      · simpa [welcome, World.notice] using inviteAccept_writes

theorem handleDecline_writes :
    SameOutside [.invites] w.db (handleDecline env command conn me w).db := by
  unfold handleDecline
  split
  · exact .refl _ _
  · exact inviteAccept_writes

/-! ## Command lines and events -/

theorem dispatch_writes : SameOutside command.type.writes w.db
    (dispatch env command conn me w).db := by
  unfold dispatch
  split <;> rename_i ht <;> rw [ht]
  · exact .refl _ _
  · exact handleRegister_writes
  · exact handleLogin_writes
  · exact handleReconnect_writes
  · exact .of_eq handleCreate_db
  · exact .of_eq handleJoin_db
  · exact .of_eq handleLeave_db
  · exact .of_eq handleKick_db
  · exact .of_eq handlePromote_db
  · exact handleMsg_writes
  · exact handleEdit_writes
  · exact handleDelete_writes
  · exact .of_eq handleHistory_db
  · exact .of_eq handlePm_db
  · exact .refl _ _
  · exact .of_eq handleStatus_db
  · exact .of_eq handleWho_db
  · exact .of_eq handleLogout_db
  · exact handleLogoutAll_writes
  · exact .refl _ _
  · exact handleRevokeSession_writes
  · exact handleRead_writes
  · exact .of_eq handleTyping_db
  · exact .of_eq handleStopTyping_db
  · exact handleBlock_writes
  · exact handleUnblock_writes
  · exact handleMute_writes
  · exact handleUnmute_writes
  · exact handleBan_writes
  · exact handleDemote_writes
  · exact handleCreatePrivate_writes
  · exact handleInvite_writes
  · exact handleAccept_writes
  · exact handleDecline_writes

theorem dispatchAnonymous_writes : SameOutside CmdType.register.writes w.db
    (dispatchAnonymous env command conn w).db := by
  have hsession : [TableName.sessions] ⊆ CmdType.register.writes := by simp [CmdType.writes]
  unfold dispatchAnonymous
  split
  · exact handleRegister_writes
  · exact handleLogin_writes.mono hsession
  · exact handleReconnect_writes.mono hsession
  · exact .refl _ _

/-- A command line writes the tables of its command only. -/
theorem processLine_writes {text : Text} : SameOutside (parseLine text).type.writes w.db
    (processLine env conn text w).1.db := by
  unfold processLine
  simp only
  split_ifs
  · exact .refl _ _
  · exact .refl _ _
  · split
    · unfold dispatchAnonymous
      split <;> rename_i ht
      · exact ht ▸ handleRegister_writes
      · exact ht ▸ handleLogin_writes
      · exact ht ▸ handleReconnect_writes
      · exact .refl _ _
    · exact dispatch_writes

theorem step_db {e : Event} (he : ∀ fd text, e ≠ .line fd text) :
    (step w (env, e)).db = w.db := by
  cases e with
  | accept fd ssl =>
    simp only [step, handleEvent]
    split_ifs <;> rfl
  | line fd text => exact absurd rfl (he fd text)
  | disconnect fd =>
    simp only [step, handleEvent]
    split
    · rfl
    · exact disconnectCleanup_db
  | cleanup => rfl
  | shutdown => rfl

theorem step_kept {t : TableName} {e : Event} (ht : t ∉ CmdType.register.writes)
    (h : ∀ conn me command, Commands w e conn me command → t ∉ command.type.writes) :
    t.Kept w.db (step w (env, e)).db := by
  by_cases he : ∀ fd text, e ≠ .line fd text
  · rw [step_db he]
    exact SameOutside.refl _ _ t ht
  · simp only [not_forall, not_not] at he
    obtain ⟨fd, text, rfl⟩ := he
    simp only [step, handleEvent]
    split
    · exact SameOutside.refl _ _ t ht
    · rename_i conn hconn
      obtain rfl := w.conns.fd_eq _ _ hconn
      by_cases htype : t ∈ (parseLine text).type.writes
      · cases hme : conn.me with
        | none =>
          unfold processLine
          simp only [hme]
          split_ifs
          · exact SameOutside.refl _ _ t ht
          · exact SameOutside.refl _ _ t ht
          · exact dispatchAnonymous_writes t ht
        | some me => exact absurd htype (h conn me _ ⟨text, rfl, hconn, hme, rfl⟩)
      · exact processLine_writes (w := { w with out := [], broadcasts := [] }) t htype

end ChatServer
