import ChatServer.Authority.Roles

/-! # The statements a command issues

A command changes the database by statements only, and has passed the checks of
its handler before each one: the name it signs with is that of its client, the
room is the one its client is in, and the role or the credential that the
handler asks for was read from the tables. UNMUTE asks for no role, and a
session is deleted by whoever sends its token.
-/

namespace ChatServer

open Library World

/-- The statements that write, each with the arguments of the function that issues it. -/
inductive DbOp where
  | saveMessage (roomName sender text : Text)
  | editMessage (msgId : ℤ) (newText : Text)
  | deleteMessage (msgId : ℤ)
  | registerUser (username password : Text)
  | createSession (username : Text)
  | deleteSession (token : Text)
  | cleanupExpiredSessions
  | createRoom (roomName owner : Text)
  | setRole (roomName username : Text) (role : RoomRole)
  | blockAdd (blocker blocked : Text)
  | blockRemove (blocker blocked : Text)
  | muteAdd (roomName mutedBy mutedUser : Text)
  | muteRemove (roomName mutedUser : Text)
  | banAdd (roomName bannedBy bannedUser : Text)
  | inviteCreate (roomName inviter invitee : Text)
  | inviteAccept (roomName invitee : Text)
  | markRead (messageId : ℤ) (reader : Text)
  deriving DecidableEq, Repr

/-- The database after a statement. -/
def Database.apply (env : Env) (db : Database) : DbOp → Database
  | .saveMessage roomName sender text => (dbSaveMessage env roomName sender text db).2
  | .editMessage msgId newText => dbEditMessage env msgId newText db
  | .deleteMessage msgId => dbDeleteMessage env msgId db
  | .registerUser username password => (dbRegisterUser env username password db).2
  | .createSession username => (dbCreateSession env username db).2
  | .deleteSession token => (dbDeleteSession env token db).2
  | .cleanupExpiredSessions => (dbCleanupExpiredSessions env db).2
  | .createRoom roomName owner => (dbCreateRoom env roomName owner db).2
  | .setRole roomName username role => permissionSetRole env roomName username role db
  | .blockAdd blocker blocked => (ChatServer.blockAdd env blocker blocked db).2
  | .blockRemove blocker blocked => (ChatServer.blockRemove env blocker blocked db).2
  | .muteAdd roomName mutedBy mutedUser => (ChatServer.muteAdd env roomName mutedBy mutedUser db).2
  | .muteRemove roomName mutedUser => (ChatServer.muteRemove env roomName mutedUser db).2
  | .banAdd roomName bannedBy bannedUser =>
    (ChatServer.banAdd env roomName bannedBy bannedUser db).2
  | .inviteCreate roomName inviter invitee =>
    (ChatServer.inviteCreate env roomName inviter invitee db).2
  | .inviteAccept roomName invitee => (ChatServer.inviteAccept env roomName invitee db).2
  | .markRead messageId reader => (receiptMarkRead env messageId reader db).2

/-- The name has a row in `users`. -/
def Database.HasAccount (db : Database) (n : Text) : Prop := ∃ u ∈ db.users.rows, u.username = n

/-- The line takes a free name, or brings the password or a session of a name. -/
inductive Credential (env : Env) (db : Database) (command : Cmd) (n : Text) : Prop
  | register {pw : Text} (ht : command.type = .register) (h₁ : command.arg1 = some n)
      (h₂ : command.arg2 = some pw) (inserted : (dbRegisterUser env n pw db).1 = .inserted)
  | password {pw : Text} (ht : command.type = .login) (h₁ : command.arg1 = some n)
      (h₂ : command.arg2 = some pw) (verified : dbVerifyUser env n pw db = .ok)
  | session {token : Text} (ht : command.type = .reconnect) (h₁ : command.arg1 = some token)
      (validated : (dbValidateSession env token (dbCleanupExpiredSessions env db).2).1 = .ok n)

/-- A message of a room's buffer that is not deleted. -/
def Room.Holds (room : Room) (m : Message) : Prop :=
  some m ∈ historyScan room.history ∧ m.deleted = false

/-- The statements a command line may issue, with what it has checked by then. -/
inductive Issues (env : Env) (w : World) (conn : Conn) (command : Cmd) (db : Database) :
    DbOp → Prop
  | register {n pw : Text} (ht : command.type = .register) (hme : conn.me = none)
      (h₁ : command.arg1 = some n) (h₂ : command.arg2 = some pw) :
      Issues env w conn command db (.registerUser n pw)
  | grant {n : Text} (hme : conn.me = none) (proved : Credential env w.db command n)
      (account : db.HasAccount n) (fits : badLength maxUsernameLen n = false) :
      Issues env w conn command db (.createSession n)
  | expire (ht : command.type = .reconnect ∨ command.type = .logoutAll) :
      Issues env w conn command db .cleanupExpiredSessions
  | revoke {token : Text} (ht : command.type = .reconnect ∨ command.type = .revokeSession)
      (h₁ : command.arg1 = some token) :
      Issues env w conn command db (.deleteSession token)
  | msg {me : ClientPtr} {room : RoomPtr} {text : Text} (ht : command.type = .msg)
      (hme : conn.me = some me) (h₁ : command.arg1 = some text) (written : text ≠ [])
      (inside : (w.client me).currentRoom = some room) :
      Issues env w conn command db
        (.saveMessage (w.room room).roomName (w.client me).clientName text)
  | edit {me : ClientPtr} {room : RoomPtr} {newText : Text} {m : Message}
      (ht : command.type = .edit) (hme : conn.me = some me) (h₂ : command.arg2 = some newText)
      (inside : (w.client me).currentRoom = some room) (stored : (w.room room).Holds m)
      (author : m.sender = (w.client me).clientName) :
      Issues env w conn command db (.editMessage m.id newText)
  | delete {me : ClientPtr} {room : RoomPtr} {m : Message} (ht : command.type = .delete)
      (hme : conn.me = some me) (inside : (w.client me).currentRoom = some room)
      (stored : (w.room room).Holds m) (entitled : m.sender = (w.client me).clientName ∨
        (w.room room).adminClient = some me) :
      Issues env w conn command db (.deleteMessage m.id)
  | read {me : ClientPtr} {idStr : Text} (ht : command.type = .read) (hme : conn.me = some me)
      (h₁ : command.arg1 = some idStr) :
      Issues env w conn command db (.markRead (atoll idStr) (w.client me).clientName)
  | own {me : ClientPtr} {n : Text} (ht : command.type = .createPrivate)
      (hme : conn.me = some me) (h₁ : command.arg1 = some n)
      (made : (ChatServer.createRoom env (some n) (some me) w.db w.reg).1 = .ok) :
      Issues env w conn command db (.setRole n (w.client me).clientName .owner)
  | keep {me : ClientPtr} {n : Text} (ht : command.type = .createPrivate)
      (hme : conn.me = some me) (h₁ : command.arg1 = some n)
      (made : (ChatServer.createRoom env (some n) (some me) w.db w.reg).1 = .ok) :
      Issues env w conn command db (.createRoom n (w.client me).clientName)
  | demote {me : ClientPtr} {room : RoomPtr} {target : Text} (ht : command.type = .demote)
      (hme : conn.me = some me) (h₁ : command.arg1 = some target)
      (inside : (w.client me).currentRoom = some room)
      (owner : permissionCheck env (w.room room).roomName (w.client me).clientName .demote db)
      (ranked : permissionGetRole env (w.room room).roomName target db ≠ .member) :
      Issues env w conn command db (.setRole (w.room room).roomName target
        (permissionGetRole env (w.room room).roomName target db).lower)
  | block {me : ClientPtr} {target : Text} (ht : command.type = .block)
      (hme : conn.me = some me) (h₁ : command.arg1 = some target) :
      Issues env w conn command db (.blockAdd (w.client me).clientName target)
  | unblock {me : ClientPtr} {target : Text} (ht : command.type = .unblock)
      (hme : conn.me = some me) (h₁ : command.arg1 = some target) :
      Issues env w conn command db (.blockRemove (w.client me).clientName target)
  | mute {me : ClientPtr} {room : RoomPtr} {target : Text} (ht : command.type = .mute)
      (hme : conn.me = some me) (h₁ : command.arg1 = some target)
      (inside : (w.client me).currentRoom = some room)
      (admin : permissionCheck env (w.room room).roomName (w.client me).clientName .mute db) :
      Issues env w conn command db
        (.muteAdd (w.room room).roomName (w.client me).clientName target)
  | unmute {me : ClientPtr} {room : RoomPtr} {target : Text} (ht : command.type = .unmute)
      (hme : conn.me = some me) (h₁ : command.arg1 = some target)
      (inside : (w.client me).currentRoom = some room) :
      Issues env w conn command db (.muteRemove (w.room room).roomName target)
  | ban {me : ClientPtr} {room : RoomPtr} {target : Text} (ht : command.type = .ban)
      (hme : conn.me = some me) (h₁ : command.arg1 = some target)
      (inside : (w.client me).currentRoom = some room)
      (owner : permissionCheck env (w.room room).roomName (w.client me).clientName .ban db) :
      Issues env w conn command db
        (.banAdd (w.room room).roomName (w.client me).clientName target)
  | invite {me : ClientPtr} {room : RoomPtr} {target : Text} (ht : command.type = .invite)
      (hme : conn.me = some me) (h₁ : command.arg1 = some target)
      (inside : (w.client me).currentRoom = some room)
      (admin : permissionCheck env (w.room room).roomName (w.client me).clientName .invite db)
      (account : db.HasAccount target) :
      Issues env w conn command db
        (.inviteCreate (w.room room).roomName (w.client me).clientName target)
  | answer {me : ClientPtr} {n : Text} (ht : command.type = .accept ∨ command.type = .decline)
      (hme : conn.me = some me) (h₁ : command.arg1 = some n) :
      Issues env w conn command db (.inviteAccept n (w.client me).clientName)

/-- The database goes from one state to another by statements that the line may issue. -/
def Performed (env : Env) (w : World) (conn : Conn) (command : Cmd) (db db' : Database) : Prop :=
  Execution (Database.apply env) (Issues env w conn command) db db'

variable {env : Env} {w : World} {command : Cmd} {conn : Conn} {me : ClientPtr} {room : RoomPtr}
  {db db' : Database} {reg reg' : Registry} {n token : Text} {op : DbOp}

namespace Performed

theorem of_eq (h : db' = db) : Performed env w conn command db db' := h ▸ Execution.refl db

theorem single (h : Issues env w conn command db op) (hdb : db' = db.apply env op) :
    Performed env w conn command db db' := hdb ▸ Execution.single h

theorem trans {db'' : Database} (h : Performed env w conn command db db')
    (h' : Performed env w conn command db' db'') : Performed env w conn command db db'' :=
  Execution.trans h h'

end Performed

/-! ## What the checks establish -/

theorem hasAccount_of_exists (h : dbUserExists env n db) : db.HasAccount n := by
  have hne : ((env.sql .userExists).rows (db.users.rows.filter fun u => u.username = n)) ≠ [] := by
    simpa [dbUserExists] using h
  obtain ⟨u, hu⟩ := List.exists_mem_of_ne_nil _ hne
  obtain ⟨hmem, hname⟩ := List.mem_filter.mp (Sql.mem_of_mem_rows hu)
  exact ⟨u, hmem, of_decide_eq_true hname⟩

theorem hasAccount_of_verified {pw : Text} (h : dbVerifyUser env n pw db = .ok) :
    db.HasAccount n := by
  unfold dbVerifyUser at h
  split_ifs at h
  split at h
  · cases h
  · rename_i u _ hrows
    have hmem := Sql.mem_of_mem_rows (hrows ▸ List.mem_cons_self)
    obtain ⟨hu, hname⟩ := List.mem_filter.mp hmem
    exact ⟨u, hu, of_decide_eq_true hname⟩

theorem hasAccount_of_inserted {pw : Text} (h : dbRegisterUser env n pw db = (.inserted, db')) :
    db'.HasAccount n := by
  unfold dbRegisterUser at h
  split at h
  · split at h
    · rename_i users hins
      cases h
      simp only [Table.insert?] at hins
      split_ifs at hins
      cases hins
      exact ⟨_, List.mem_append_right _ (List.mem_singleton_self _), rfl⟩
    · cases h
  · cases h

theorem changeMessage_holds {m : Room} {msgId : ℤ} {mayChange : Message → Bool}
    {change : Message → Message} {history : RingBuffer Message}
    (h : changeMessage m.history msgId mayChange change = (.ok, history)) :
    ∃ x, m.Holds x ∧ x.id = msgId ∧ mayChange x := by
  unfold changeMessage at h
  cases hfind : historyFind m.history msgId with
  | none => rw [hfind] at h; cases h
  | some idx =>
    rw [hfind] at h
    simp only at h
    have hid := List.find?_some hfind
    obtain ⟨i, hi, hidx⟩ := List.mem_map.mp (List.mem_of_find?_eq_some hfind)
    have hread : historyRead m.history idx = some (m.history.slots idx.toNat) := by
      unfold historyRead at hid ⊢
      split_ifs at hid ⊢
      · rfl
      · simp at hid
    split_ifs at h with hdel hmay
    · cases h
    · cases h
    · refine ⟨m.history.slots idx.toNat, ⟨?_, by simpa using hdel⟩, ?_, by simpa using hmay⟩
      · rw [← hread, ← hidx]
        exact List.mem_map.mpr ⟨i, hi, rfl⟩
      · rw [hread] at hid
        simpa using hid

/-! ## Accounts and sessions -/

theorem grantSession_issued {w' : World} {status : Text} (hdb : w'.db = db)
    (h : Issues env w conn command db (.createSession n)) :
    Performed env w conn command db (grantSession env conn status n w').db := by
  have hgrant : (grantSession env conn status n w').db = db.apply env (.createSession n) := by
    unfold grantSession
    rw [hdb]
    simp only [Database.apply]
    split <;> rename_i hc <;> rw [hc] <;> rfl
  exact .single h hgrant

theorem dbRegisterUser_snd {result : Registered} {pw : Text}
    (h : dbRegisterUser env n pw db = (result, db')) : db' = db.apply env (.registerUser n pw) := by
  simp only [Database.apply, h]

theorem handleRegister_issued (ht : command.type = .register) :
    Performed env w conn command w.db (handleRegister env command conn w).db := by
  unfold handleRegister
  split_ifs with hme
  · exact .of_eq rfl
  · have hme : conn.me = none := not_not.mp hme
    split
    · rename_i user pw h₁ h₂
      have hdb : ∀ {result db}, dbRegisterUser env user pw w.db = (result, db) →
          Performed env w conn command w.db db := fun h =>
        .single (.register ht hme h₁ h₂) (dbRegisterUser_snd h)
      split
      · exact hdb ‹_›
      · exact hdb ‹_›
      · rename_i db h
        split_ifs
        · exact hdb h
        · split
          · rename_i hcreate
            obtain ⟨c, -, -, hn, -⟩ := createClientWith_ok hcreate
            have hproved : Credential env w.db command user := .register ht h₁ h₂ (by rw [h])
            exact (hdb h).trans
              (grantSession_issued rfl (.grant hme hproved (hasAccount_of_inserted h) hn))
          · exact hdb h
    · exact .of_eq rfl

theorem handleLogin_issued (ht : command.type = .login) :
    Performed env w conn command w.db (handleLogin env command conn w).db := by
  unfold handleLogin
  split_ifs with hme
  · exact .of_eq rfl
  · have hme : conn.me = none := not_not.mp hme
    split
    · rename_i user pw h₁ h₂
      split
      · exact .of_eq rfl
      · exact .of_eq rfl
      · exact .of_eq rfl
      · rename_i hverified
        split
        · rename_i hcreate
          rw [replaceClient_eq] at hcreate
          obtain ⟨c, -, -, hn, -⟩ := createClientWith_ok hcreate
          have hproved : Credential env w.db command user := .password ht h₁ h₂ hverified
          exact grantSession_issued rfl (.grant hme hproved (hasAccount_of_verified hverified) hn)
        · exact .of_eq rfl
    · exact .of_eq rfl

theorem dbValidateSession_issued {result : Validated}
    (ht : command.type = .reconnect ∨ command.type = .revokeSession)
    (h₁ : command.arg1 = some token) (h : dbValidateSession env token db = (result, db')) :
    Performed env w conn command db db' := by
  unfold dbValidateSession at h
  split_ifs at h
  · cases h
    exact .of_eq rfl
  · cases h
    exact .of_eq rfl
  · split at h
    · cases h
      exact .of_eq rfl
    · split_ifs at h
      · cases h
        exact .single (.revoke ht h₁) rfl
      · cases h
        exact .of_eq rfl

theorem handleReconnect_issued (ht : command.type = .reconnect) :
    Performed env w conn command w.db (handleReconnect env command conn w).db := by
  unfold handleReconnect
  split_ifs with hme
  · exact .of_eq rfl
  · have hme : conn.me = none := not_not.mp hme
    split
    · exact .of_eq rfl
    · rename_i token h₁
      have hclean : Performed env w conn command w.db (dbCleanupExpiredSessions env w.db).2 :=
        .single (.expire (.inl ht)) rfl
      split
      · exact hclean.trans (dbValidateSession_issued (.inl ht) h₁ ‹_›)
      · exact hclean.trans (dbValidateSession_issued (.inl ht) h₁ ‹_›)
      · exact hclean.trans (dbValidateSession_issued (.inl ht) h₁ ‹_›)
      · rename_i user db hvalid
        have hvalidated := hclean.trans (dbValidateSession_issued (.inl ht) h₁ hvalid)
        have hdelete : Performed env w conn command db (dbDeleteSession env token db).2 :=
          .single (.revoke (.inl ht) h₁) rfl
        split_ifs with hexists
        · exact hvalidated.trans hdelete
        · split
          · rename_i hcreate
            rw [replaceClient_eq] at hcreate
            obtain ⟨c, -, -, hn, -⟩ := createClientWith_ok hcreate
            have hproved : Credential env w.db command user := .session ht h₁ (by rw [hvalid])
            have haccount : (dbDeleteSession env token db).2.HasAccount user := by
              have hkept : (dbDeleteSession env token db).2.users = db.users :=
                dbDeleteSession_writes .users (by simp)
              unfold Database.HasAccount
              rw [hkept]
              exact hasAccount_of_exists (by simpa using hexists)
            exact (hvalidated.trans hdelete).trans
              (grantSession_issued rfl (.grant hme hproved haccount hn))
          · exact hvalidated

theorem handleLogoutAll_issued (ht : command.type = .logoutAll) :
    Performed env w conn command w.db (handleLogoutAll env conn me w).db := by
  unfold handleLogoutAll
  simp only [leaveLastRoom_db]
  exact .single (.expire (.inr ht)) rfl

theorem handleRevokeSession_issued (ht : command.type = .revokeSession) :
    Performed env w conn command w.db (handleRevokeSession env command conn w).db := by
  unfold handleRevokeSession
  split
  · exact .of_eq rfl
  · rename_i token h₁
    have hrevoke : ∀ {result db}, sessionRevoke env token w.db = (result, db) →
        Performed env w conn command w.db db := by
      intro result db h
      refine .single (.revoke (.inr ht) h₁) ?_
      unfold sessionRevoke at h
      simp only [Database.apply]
      split at h <;> rename_i hdel <;> cases h <;> rw [hdel]
    split <;> exact hrevoke ‹_›

/-! ## Messages -/

theorem rateLimitCheck_rooms {free : Bool} (h : rateLimitCheck env me reg = (free, reg')) :
    reg'.rooms = reg.rooms := by
  unfold rateLimitCheck at h
  simp only at h
  split_ifs at h <;> cases h <;> rfl

theorem handleMsg_issued (ht : command.type = .msg) (hme : conn.me = some me) :
    Performed env w conn command w.db (handleMsg env command conn me w).db := by
  unfold handleMsg
  split
  · exact .of_eq rfl
  · rename_i room inside
    split
    · exact .of_eq rfl
    · rename_i reg hrate
      have hname : (reg.rooms room).roomName = (w.room room).roomName :=
        congrArg Room.roomName (congrFun (rateLimitCheck_rooms hrate) room)
      split
      · exact .of_eq rfl
      · rename_i text h₁
        split_ifs with htext
        · exact .of_eq rfl
        · refine .single (.msg ht hme h₁ htext inside) ?_
          simp only [roomAddHistory, hname]
          split_ifs <;> rfl

theorem handleEdit_issued (ht : command.type = .edit) (hme : conn.me = some me) :
    Performed env w conn command w.db (handleEdit env command conn me w).db := by
  unfold handleEdit
  split
  · exact .of_eq rfl
  · rename_i room inside
    split
    · rename_i idStr newText h₁ h₂
      have hedit : ∀ {result db reg}, roomEditMessage env room (atoll idStr)
          (w.client me).clientName newText w.db w.reg = (result, db, reg) →
          Performed env w conn command w.db db := by
        intro result db reg h
        unfold roomEditMessage at h
        split at h
        · rename_i hchange
          obtain ⟨m, hm, hid, hauthor⟩ := changeMessage_holds hchange
          cases h
          rw [← hid]
          exact .single (.edit ht hme h₂ inside hm (of_decide_eq_true hauthor)) rfl
        · cases h
          exact .of_eq rfl
      simp only
      split_ifs
      · exact .of_eq rfl
      · exact .of_eq rfl
      · split <;> exact hedit ‹_›
    · exact .of_eq rfl

theorem handleDelete_issued (ht : command.type = .delete) (hme : conn.me = some me) :
    Performed env w conn command w.db (handleDelete env command conn me w).db := by
  unfold handleDelete
  split
  · exact .of_eq rfl
  · rename_i room inside
    split
    · exact .of_eq rfl
    · rename_i idStr h₁
      have hdelete : ∀ {result db reg}, roomDeleteMessage env room (atoll idStr)
          (w.client me).clientName ((w.room room).adminClient = some me) w.db w.reg =
            (result, db, reg) → Performed env w conn command w.db db := by
        intro result db reg h
        unfold roomDeleteMessage at h
        split at h
        · rename_i hchange
          obtain ⟨m, hm, hid, hentitled⟩ := changeMessage_holds hchange
          cases h
          rw [← hid]
          exact .single (.delete ht hme inside hm (by simpa using hentitled)) rfl
        · cases h
          exact .of_eq rfl
      simp only
      split_ifs
      · exact .of_eq rfl
      · split <;> exact hdelete ‹_›

theorem handleRead_issued (ht : command.type = .read) (hme : conn.me = some me) :
    Performed env w conn command w.db (handleRead env command conn me w).db := by
  unfold handleRead
  split
  · exact .of_eq rfl
  · rename_i idStr h₁
    have hread : ∀ {result db}, receiptMarkRead env (atoll idStr) (w.client me).clientName w.db =
        (result, db) → Performed env w conn command w.db db := by
      intro result db h
      exact .single (.read ht hme h₁) (by simp only [Database.apply, h])
    simp only
    split_ifs
    · exact .of_eq rfl
    · split
      · split <;> exact hread ‹_›
      · exact hread ‹_›

/-! ## Rooms and moderation -/

theorem handleCreatePrivate_issued (ht : command.type = .createPrivate) (hme : conn.me = some me) :
    Performed env w conn command w.db (handleCreatePrivate env command conn me w).db := by
  unfold handleCreatePrivate
  split
  · exact .of_eq rfl
  · rename_i n h₁
    split
    · rename_i hmade
      have hmade : (createRoom env (some n) (some me) w.db w.reg).1 = .ok := by rw [hmade]
      split
      · exact (Performed.single (.own ht hme h₁ hmade) rfl).trans
          (.single (.keep ht hme h₁ hmade) rfl)
      · exact .of_eq rfl
    · exact .of_eq rfl
    · exact .of_eq rfl

theorem handleBlock_issued (ht : command.type = .block) (hme : conn.me = some me) :
    Performed env w conn command w.db (handleBlock env command conn me w).db := by
  unfold handleBlock
  split
  · exact .of_eq rfl
  · rw [replyResult_db]
    exact .single (.block ht hme ‹_›) rfl

theorem handleUnblock_issued (ht : command.type = .unblock) (hme : conn.me = some me) :
    Performed env w conn command w.db (handleUnblock env command conn me w).db := by
  unfold handleUnblock
  split
  · exact .of_eq rfl
  · rw [replyResult_db]
    exact .single (.unblock ht hme ‹_›) rfl

theorem handleMute_issued (ht : command.type = .mute) (hme : conn.me = some me) :
    Performed env w conn command w.db (handleMute env command conn me w).db := by
  unfold handleMute
  split
  · exact .of_eq rfl
  · rename_i room inside
    simp only
    split_ifs with hperm
    · exact .of_eq rfl
    · split
      · exact .of_eq rfl
      · rw [replyResult_db]
        exact .single (.mute ht hme ‹_› inside (by simpa using hperm)) rfl

theorem handleUnmute_issued (ht : command.type = .unmute) (hme : conn.me = some me) :
    Performed env w conn command w.db (handleUnmute env command conn me w).db := by
  unfold handleUnmute
  split
  · exact .of_eq rfl
  · rename_i room inside
    split
    · exact .of_eq rfl
    · rw [replyResult_db]
      exact .single (.unmute ht hme ‹_› inside) rfl

theorem handleBan_issued (ht : command.type = .ban) (hme : conn.me = some me) :
    Performed env w conn command w.db (handleBan env command conn me w).db := by
  unfold handleBan
  split
  · exact .of_eq rfl
  · rename_i room inside
    simp only
    split_ifs with hperm
    · exact .of_eq rfl
    · split
      · exact .of_eq rfl
      · rename_i target h₁
        have hban : ∀ {result db}, banAdd env (w.room room).roomName (w.client me).clientName target
            w.db = (result, db) → Performed env w conn command w.db db := fun h =>
          .single (.ban ht hme h₁ inside (by simpa using hperm)) (by simp only [Database.apply, h])
        split
        · rw [replyOk_eq, reply_eq, emit_db, evictBanned_db]
          exact hban ‹_›
        · exact hban ‹_›

theorem handleDemote_issued (ht : command.type = .demote) (hme : conn.me = some me) :
    Performed env w conn command w.db (handleDemote env command conn me w).db := by
  unfold handleDemote
  split
  · exact .of_eq rfl
  · rename_i room inside
    simp only
    split_ifs with hperm
    · exact .of_eq rfl
    · split
      · exact .of_eq rfl
      · rename_i target h₁
        split_ifs with hself hrank
        · exact .of_eq rfl
        · exact .of_eq rfl
        · refine .single (.demote ht hme h₁ inside (by simpa using hperm) fun hrole => ?_) rfl
          exact hrank (by rw [hrole])

theorem handleInvite_issued (ht : command.type = .invite) (hme : conn.me = some me) :
    Performed env w conn command w.db (handleInvite env command conn me w).db := by
  unfold handleInvite
  split
  · exact .of_eq rfl
  · rename_i room inside
    simp only
    split_ifs with hperm
    · exact .of_eq rfl
    · split
      · exact .of_eq rfl
      · rename_i target h₁
        split_ifs with hexists
        · exact .of_eq rfl
        · have haccount : w.db.HasAccount target := hasAccount_of_exists (by simpa using hexists)
          have hinvite : ∀ {result db}, inviteCreate env (w.room room).roomName
              (w.client me).clientName target w.db = (result, db) →
              Performed env w conn command w.db db := fun h =>
            .single (.invite ht hme h₁ inside (by simpa using hperm) haccount)
              (by simp only [Database.apply, h])
          split
          · split <;> exact hinvite ‹_›
          · exact hinvite ‹_›

theorem handleAccept_issued (ht : command.type = .accept) (hme : conn.me = some me) :
    Performed env w conn command w.db (handleAccept env command conn me w).db := by
  unfold handleAccept
  split
  · exact .of_eq rfl
  · rename_i n h₁
    have haccept : Performed env w conn command w.db
        (inviteAccept env n (w.client me).clientName w.db).2 :=
      .single (.answer (.inl ht) hme h₁) rfl
    simp only
    split_ifs
    · exact .of_eq rfl
    · split
      · exact haccept
      · simpa [welcome, World.notice] using haccept

theorem handleDecline_issued (ht : command.type = .decline) (hme : conn.me = some me) :
    Performed env w conn command w.db (handleDecline env command conn me w).db := by
  unfold handleDecline
  split
  · exact .of_eq rfl
  · exact .single (.answer (.inr ht) hme ‹_›) rfl

/-! ## Command lines and events -/

theorem dispatch_issued (hme : conn.me = some me) :
    Performed env w conn command w.db (dispatch env command conn me w).db := by
  unfold dispatch
  split <;> rename_i ht
  · exact .of_eq rfl
  · exact handleRegister_issued ht
  · exact handleLogin_issued ht
  · exact handleReconnect_issued ht
  · exact .of_eq handleCreate_db
  · exact .of_eq handleJoin_db
  · exact .of_eq handleLeave_db
  · exact .of_eq handleKick_db
  · exact .of_eq handlePromote_db
  · exact handleMsg_issued ht hme
  · exact handleEdit_issued ht hme
  · exact handleDelete_issued ht hme
  · exact .of_eq handleHistory_db
  · exact .of_eq handlePm_db
  · exact .of_eq rfl
  · exact .of_eq handleStatus_db
  · exact .of_eq handleWho_db
  · exact .of_eq handleLogout_db
  · exact handleLogoutAll_issued ht
  · exact .of_eq rfl
  · exact handleRevokeSession_issued ht
  · exact handleRead_issued ht hme
  · exact .of_eq handleTyping_db
  · exact .of_eq handleStopTyping_db
  · exact handleBlock_issued ht hme
  · exact handleUnblock_issued ht hme
  · exact handleMute_issued ht hme
  · exact handleUnmute_issued ht hme
  · exact handleBan_issued ht hme
  · exact handleDemote_issued ht hme
  · exact handleCreatePrivate_issued ht hme
  · exact handleInvite_issued ht hme
  · exact handleAccept_issued ht hme
  · exact handleDecline_issued ht hme

theorem processLine_performed {text : Text} : Performed env w conn (parseLine text) w.db
    (processLine env conn text w).1.db := by
  unfold processLine
  simp only
  split_ifs
  · exact .of_eq rfl
  · exact .of_eq rfl
  · split
    · unfold dispatchAnonymous
      split
      · exact handleRegister_issued ‹_›
      · exact handleLogin_issued ‹_›
      · exact handleReconnect_issued ‹_›
      · exact .of_eq rfl
    · exact dispatch_issued ‹_›

/-- The statements an event may issue: those of a line on an open connection. -/
inductive Records (env : Env) (w : World) : Event → Database → DbOp → Prop
  | line {fd : Fd} {text : Text} {conn : Conn} {db : Database} {op : DbOp}
      (hconn : w.conns.get fd = some conn) (h : Issues env w conn (parseLine text) db op) :
      Records env w (.line fd text) db op

theorem Issues.of_out {outs : List Output} {broadcasts : List Text}
    (h : Issues env { w with out := outs, broadcasts } conn command db op) :
    Issues env w conn command db op := by
  cases h with
  | register ht hme h₁ h₂ => exact .register ht hme h₁ h₂
  | grant hme proved account fits => exact .grant hme proved account fits
  | expire ht => exact .expire ht
  | revoke ht h₁ => exact .revoke ht h₁
  | msg ht hme h₁ written inside => exact .msg ht hme h₁ written inside
  | edit ht hme h₂ inside stored author => exact .edit ht hme h₂ inside stored author
  | delete ht hme inside stored entitled => exact .delete ht hme inside stored entitled
  | read ht hme h₁ => exact .read ht hme h₁
  | own ht hme h₁ made => exact .own ht hme h₁ made
  | keep ht hme h₁ made => exact .keep ht hme h₁ made
  | demote ht hme h₁ inside owner ranked => exact .demote ht hme h₁ inside owner ranked
  | block ht hme h₁ => exact .block ht hme h₁
  | unblock ht hme h₁ => exact .unblock ht hme h₁
  | mute ht hme h₁ inside admin => exact .mute ht hme h₁ inside admin
  | unmute ht hme h₁ inside => exact .unmute ht hme h₁ inside
  | ban ht hme h₁ inside owner => exact .ban ht hme h₁ inside owner
  | invite ht hme h₁ inside admin account => exact .invite ht hme h₁ inside admin account
  | answer ht hme h₁ => exact .answer ht hme h₁

/--
Every event changes the database by a sequence of statements, each of which its
line may issue in the state of the database that the ones before have left.
-/
theorem step_records (w : World) (env : Env) (e : Event) :
    Execution (Database.apply env) (Records env w e) w.db (step w (env, e)).db := by
  by_cases he : ∀ fd text, e ≠ .line fd text
  · rw [step_db he]
  · simp only [not_forall, not_not] at he
    obtain ⟨fd, text, rfl⟩ := he
    simp only [step, handleEvent]
    split
    · rfl
    · rename_i conn hconn
      have hline : Performed env { w with out := [], broadcasts := [] } conn (parseLine text) w.db
          (processLine env conn text { w with out := [], broadcasts := [] }).1.db :=
            processLine_performed
      exact hline.mono fun db op h => .line hconn h.of_out

/-! ## Runs -/

/-- The database after statements, each with the environment of its event. -/
def Database.replay (db : Database) (journal : List (Env × DbOp)) : Database :=
  run (fun db x => db.apply x.1 x.2) db journal

/-- Each statement was issued by a line of the run, where the ones before it had led. -/
def Journals (w : World) (inputs : List (Env × Event)) (journal : List (Env × DbOp)) : Prop :=
  ∀ before x after, journal = before ++ x :: after → ∃ past e later,
    inputs = past ++ (x.1, e) :: later ∧
      Records x.1 (run step w past) e (w.db.replay before) x.2

theorem replay_append (db : Database) (journal more : List (Env × DbOp)) :
    db.replay (journal ++ more) = (db.replay journal).replay more := run_append _ _ _ _

theorem replay_map (db : Database) (env : Env) (ops : List DbOp) :
    db.replay (ops.map (env, ·)) = run (Database.apply env) db ops := by
  induction ops generalizing db with
  | nil => rfl
  | cons op ops ih => exact ih (db.apply env op)

theorem Journals.append {inputs : List (Env × Event)} {journal : List (Env × DbOp)} {e : Event}
    {ops : List DbOp} (h : Journals w inputs journal)
    (hops : Along (Database.apply env) (Records env (run step w inputs) e) (w.db.replay journal)
      ops) : Journals w (inputs ++ [(env, e)]) (journal ++ ops.map (env, ·)) := by
  have hnew (a' : List (Env × DbOp)) (x : Env × DbOp) (after : List (Env × DbOp))
      (hsplit : ops.map (env, ·) = a' ++ x :: after) :
      x.1 = env ∧ Records env (run step w inputs) e (w.db.replay (journal ++ a')) x.2 := by
    obtain ⟨ops₁, ops₂, rfl, rfl, htail⟩ := List.map_eq_append_iff.mp hsplit
    obtain ⟨op, ops₃, rfl, rfl, -⟩ := List.map_eq_cons_iff.mp htail
    rw [replay_append, replay_map]
    exact ⟨rfl, (along_append.mp hops).2.1⟩
  intro before x after hsplit
  rcases List.append_eq_append_iff.mp hsplit with ⟨a', rfl, htail⟩ | ⟨c', rfl, htail⟩
  · obtain ⟨henv, hrec⟩ := hnew a' x after htail
    exact ⟨inputs, e, [], by rw [henv], henv ▸ hrec⟩
  · cases c' with
    | nil =>
      obtain ⟨henv, hrec⟩ := hnew [] x after htail.symm
      rw [List.append_nil, List.append_nil] at *
      exact ⟨inputs, e, [], by rw [henv], henv ▸ hrec⟩
    | cons y c' =>
      obtain ⟨rfl, -⟩ := List.cons.inj htail
      obtain ⟨past, e', later, rfl, hrec⟩ := h before x c' rfl
      exact ⟨past, e', later ++ [(env, e)], by simp, hrec⟩

end ChatServer
