import ChatServer.Access.Tables

/-! # The messages of a server state

The table of messages, and of each room's memory the name and the buffer. Only
the creation of a room and the commands MSG, EDIT and DELETE change them.
-/

namespace ChatServer

open Library World

/-- What of a room's memory concerns its messages. -/
structure Shelf where
  roomName : Text
  history : RingBuffer Message

def Room.shelf (room : Room) : Shelf := ⟨room.roomName, room.history⟩

def shelvesOf (reg : Registry) : RoomPtr → Shelf := fun r => (reg.rooms r).shelf

/-- The table of messages and the buffers of all rooms. -/
structure Archive where
  messages : Messages
  shelves : RoomPtr → Shelf

def archiveOf (reg : Registry) (db : Database) : Archive := ⟨db.messages, shelvesOf reg⟩

def World.archive (w : World) : Archive := archiveOf w.reg w.db

/-- The changes that a client's command may make to the messages. -/
inductive Archives (env : Env) (w : World) (me : ClientPtr) (command : Cmd) : Archive → Prop
  | create {n : Text} {r : RoomPtr} {reg : Registry}
      (ht : command.type = .create ∨ command.type = .createPrivate) (h₁ : command.arg1 = some n)
      (made : createRoom env (some n) (some me) w.db w.reg = (.ok, some r, reg)) :
      Archives env w me command (archiveOf reg w.db)
  | msg {text : Text} {room : RoomPtr} {msgId : ℤ} {db : Database} {reg : Registry}
      (ht : command.type = .msg) (h₁ : command.arg1 = some text)
      (inside : (w.client me).currentRoom = some room) (htext : text ≠ [])
      (free : (rateLimitCheck env me w.reg).1)
      (added : roomAddHistory env room (w.client me).clientName text w.db w.reg =
        (msgId, db, reg)) :
      Archives env w me command (archiveOf reg db)
  | edit {idStr newText : Text} {room : RoomPtr} {db : Database} {reg : Registry}
      (ht : command.type = .edit) (h₁ : command.arg1 = some idStr)
      (h₂ : command.arg2 = some newText) (inside : (w.client me).currentRoom = some room)
      (htext : newText ≠ []) (hpos : 0 < atoll idStr)
      (edited : roomEditMessage env room (atoll idStr) (w.client me).clientName newText w.db w.reg =
        (.ok, db, reg)) :
      Archives env w me command (archiveOf reg db)
  | delete {idStr : Text} {room : RoomPtr} {db : Database} {reg : Registry}
      (ht : command.type = .delete) (h₁ : command.arg1 = some idStr)
      (inside : (w.client me).currentRoom = some room) (hpos : 0 < atoll idStr)
      (deleted : roomDeleteMessage env room (atoll idStr) (w.client me).clientName
        ((w.room room).adminClient = some me) w.db w.reg = (.ok, db, reg)) :
      Archives env w me command (archiveOf reg db)

variable {env : Env} {w : World} {command : Cmd} {conn : Conn} {me c : ClientPtr}
  {r room : RoomPtr} {db : Database} {reg reg' : Registry} {n text : Text} {e : Event}

/-! ## Functions of the registry -/

section Shelves

theorem shelvesOf_setRoom {m : Room} :
    shelvesOf (reg.setRoom r m) = Function.update (shelvesOf reg) r m.shelf :=
  update_proj Room.shelf reg.rooms r m

theorem shelvesOf_modifyRoom {f : Room → Room} (h : ∀ m, (f m).shelf = m.shelf) :
    shelvesOf (reg.modifyRoom r f) = shelvesOf reg := by
  rw [Registry.modifyRoom, shelvesOf_setRoom, h]
  exact Function.update_eq_self r (shelvesOf reg)

@[simp] theorem shelvesOf_setClient {client : Client} :
    shelvesOf (reg.setClient c client) = shelvesOf reg := rfl

@[simp] theorem shelvesOf_setCurrentRoom {o : Option RoomPtr} :
    shelvesOf (reg.setCurrentRoom c o) = shelvesOf reg := rfl

@[simp] theorem shelvesOf_setAdmin : shelvesOf (reg.setAdmin r c) = shelvesOf reg :=
  shelvesOf_modifyRoom fun _ => rfl

@[simp] theorem shelvesOf_roomAddMember :
    shelvesOf (roomAddMember (some r) (some c) reg).2 = shelvesOf reg := by
  rcases roomAddMember_cases reg r c with ⟨h, -⟩ | ⟨h, -⟩ | ⟨h, -⟩ <;> rw [h]
  exact shelvesOf_modifyRoom (f := fun m => { m with members := m.members ++ [c] }) fun _ => rfl

@[simp] theorem shelvesOf_roomRemoveMember :
    shelvesOf (roomRemoveMember (some r) (some c) reg).2 = shelvesOf reg := by
  rw [roomRemoveMember_snd]
  exact shelvesOf_modifyRoom fun _ => rfl

theorem shelvesOf_of_add {err : RoomErr}
    (h : roomAddMember (some r) (some c) reg = (err, reg')) : shelvesOf reg' = shelvesOf reg := by
  have hadd : shelvesOf (roomAddMember (some r) (some c) reg).2 = shelvesOf reg :=
    shelvesOf_roomAddMember
  rwa [h] at hadd

theorem shelvesOf_of_remove {err : RoomErr}
    (h : roomRemoveMember (some r) (some c) reg = (err, reg')) :
    shelvesOf reg' = shelvesOf reg := by
  have hremove : shelvesOf (roomRemoveMember (some r) (some c) reg).2 = shelvesOf reg :=
    shelvesOf_roomRemoveMember
  rwa [h] at hremove

@[simp] theorem shelvesOf_roomDeleteIfEmpty :
    shelvesOf (roomDeleteIfEmpty r reg) = shelvesOf reg := by
  unfold roomDeleteIfEmpty
  split_ifs
  · simp only [deleteRoom]
    split_ifs <;> rfl
  · rfl

@[simp] theorem shelvesOf_deleteClient :
    shelvesOf (deleteClient (some c) reg).2 = shelvesOf reg := by
  rw [deleteClient_snd]
  rfl

@[simp] theorem shelvesOf_acceptLeave : shelvesOf (acceptLeave me reg) = shelvesOf reg := by
  unfold acceptLeave
  split
  · rfl
  · simp

@[simp] theorem shelvesOf_moveTo : shelvesOf (moveTo me room reg) = shelvesOf reg := by
  simp [moveTo]

theorem shelvesOf_of_login {err : ClientErr} {o : Option ClientPtr} {fd : Fd}
    (h : replaceClient env fd n reg = (err, o, reg')) : shelvesOf reg' = shelvesOf reg := by
  rw [replaceClient_eq] at h
  by_cases herr : err = .ok
  · subst herr
    obtain ⟨c, -, -, -, rfl⟩ := createClientWith_ok h
    rfl
  · rw [(createClientWith_err herr h).2]

theorem shelvesOf_of_register {err : ClientErr} {o : Option ClientPtr} {fd : Fd}
    (h : createClient env fd n reg = (err, o, reg')) : shelvesOf reg' = shelvesOf reg := by
  by_cases herr : err = .ok
  · subst herr
    obtain ⟨c, -, -, -, rfl⟩ := createClientWith_ok h
    rfl
  · rw [(createClientWith_err herr h).2]

theorem shelvesOf_of_rateLimit {ok : Bool} (h : rateLimitCheck env c reg = (ok, reg')) :
    shelvesOf reg' = shelvesOf reg := by
  unfold rateLimitCheck at h
  simp only at h
  split_ifs at h <;> cases h <;> rfl

end Shelves

theorem shelf_eq (h : shelvesOf reg' = shelvesOf reg) (r : RoomPtr) :
    (reg'.rooms r).roomName = (reg.rooms r).roomName ∧
      (reg'.rooms r).history = (reg.rooms r).history :=
  Shelf.mk.inj (congrFun h r)

theorem roomAddHistory_shelves (env : Env) (r : RoomPtr) (sender text : Text) (db : Database)
    (h : shelvesOf reg' = shelvesOf reg) :
    (roomAddHistory env r sender text db reg').1 = (roomAddHistory env r sender text db reg).1 ∧
      (roomAddHistory env r sender text db reg').2.1 =
        (roomAddHistory env r sender text db reg).2.1 ∧
      shelvesOf (roomAddHistory env r sender text db reg').2.2 =
        shelvesOf (roomAddHistory env r sender text db reg).2.2 := by
  obtain ⟨hname, hhist⟩ := shelf_eq h r
  by_cases hcap : (reg.rooms r).history.cap = 0
  · simp only [roomAddHistory, hname, hhist, hcap, if_true]
    exact ⟨trivial, trivial, h⟩
  · simp only [roomAddHistory, hname, hhist, hcap, if_false, Registry.modifyRoom_eq,
      shelvesOf_setRoom, h, Room.shelf, and_self]

theorem shelvesOf_of_created (h : createRoom env (some n) (some c) db reg = (.ok, some r, reg')) :
    r ∉ reg.roomList ∧ badLength maxRoomNameLen n = false ∧
      shelvesOf reg' = Function.update (shelvesOf reg) r (newRoom env n c reg db).shelf := by
  obtain ⟨r', hr, hfree, -, hlen, rfl⟩ := createRoom_ok h
  obtain rfl := Option.some.inj hr
  exact ⟨hfree, hlen, shelvesOf_setRoom⟩

theorem shelvesOf_of_added {sender : Text} {msgId : ℤ} {db' : Database}
    (h : roomAddHistory env r sender text db reg = (msgId, db', reg')) :
    db' = (dbSaveMessage env (reg.rooms r).roomName sender text db).2 ∧
      shelvesOf reg' = Function.update (shelvesOf reg) r
        ⟨(reg.rooms r).roomName,
          if (reg.rooms r).history.cap = 0 then (reg.rooms r).history
          else addMessage (reg.rooms r).history (newMessage env msgId sender text)⟩ := by
  simp only [roomAddHistory] at h
  by_cases hcap : (reg.rooms r).history.cap = 0
  · simp only [hcap, if_true] at h ⊢
    obtain ⟨-, rfl, rfl⟩ := h
    exact ⟨rfl, (Function.update_eq_self r (shelvesOf reg)).symm⟩
  · simp only [hcap, if_false] at h ⊢
    obtain ⟨rfl, rfl, rfl⟩ := h
    exact ⟨rfl, shelvesOf_setRoom⟩

theorem shelvesOf_of_edited {msgId : ℤ} {requester newText : Text} {db' : Database}
    (h : roomEditMessage env r msgId requester newText db reg = (.ok, db', reg')) :
    db' = dbEditMessage env msgId newText db ∧
      ∃ h', changeMessage (reg.rooms r).history msgId (fun m => m.sender = requester)
          (fun m => { m with text := strncpy maxTextLen newText, editedAt := env.now }) =
            (.ok, h') ∧
        shelvesOf reg' = Function.update (shelvesOf reg) r ⟨(reg.rooms r).roomName, h'⟩ := by
  unfold roomEditMessage at h
  split at h
  · rename_i h' hchange
    cases h
    exact ⟨rfl, h', hchange, shelvesOf_setRoom⟩
  · rename_i hne _
    cases h
    exact absurd rfl hne

theorem shelvesOf_of_deleted {msgId : ℤ} {requester : Text} {isAdmin : Bool} {db' : Database}
    (h : roomDeleteMessage env r msgId requester isAdmin db reg = (.ok, db', reg')) :
    db' = dbDeleteMessage env msgId db ∧
      ∃ h', changeMessage (reg.rooms r).history msgId (fun m => m.sender = requester ∨ isAdmin)
          (fun m => { m with deleted := true, text := strncpy maxTextLen "[deleted]".toList }) =
            (.ok, h') ∧
        shelvesOf reg' = Function.update (shelvesOf reg) r ⟨(reg.rooms r).roomName, h'⟩ := by
  unfold roomDeleteMessage at h
  split at h
  · rename_i h' hchange
    cases h
    exact ⟨rfl, h', hchange, shelvesOf_setRoom⟩
  · rename_i hne _
    cases h
    exact absurd rfl hne

/-! ## Commands that keep the buffers -/

theorem grantSession_reg {status user : Text} :
    (grantSession env conn status user w).reg = w.reg := by
  unfold grantSession
  split <;> rfl

theorem handleRegister_shelves :
    shelvesOf (handleRegister env command conn w).reg = shelvesOf w.reg := by
  unfold handleRegister
  split_ifs
  · rfl
  · split
    · split
      · rfl
      · rfl
      · split_ifs
        · rfl
        · split
          · rename_i hcreate
            rw [grantSession_reg]
            exact shelvesOf_of_register hcreate
          · rename_i hcreate
            exact shelvesOf_of_register hcreate
    · rfl

theorem handleLogin_shelves :
    shelvesOf (handleLogin env command conn w).reg = shelvesOf w.reg := by
  unfold handleLogin
  split_ifs
  · rfl
  · split
    · split
      · rfl
      · rfl
      · rfl
      · split
        · rename_i hcreate
          rw [grantSession_reg]
          exact shelvesOf_of_login hcreate
        · rename_i hcreate
          exact shelvesOf_of_login hcreate
    · rfl

theorem handleReconnect_shelves :
    shelvesOf (handleReconnect env command conn w).reg = shelvesOf w.reg := by
  unfold handleReconnect
  split_ifs
  · rfl
  · split
    · rfl
    · split
      · rfl
      · rfl
      · rfl
      · split_ifs
        · rfl
        · split
          · rename_i hcreate
            rw [grantSession_reg]
            exact shelvesOf_of_login hcreate
          · rename_i hcreate
            exact shelvesOf_of_login hcreate

theorem joinLeave_shelves : shelvesOf (joinLeave conn me w).reg = shelvesOf w.reg := by
  unfold joinLeave
  split
  · rfl
  · split
    · rename_i reg hremove
      have hkeep : shelvesOf reg = shelvesOf w.reg := shelvesOf_of_remove hremove
      exact hkeep
    · rename_i hremove
      exact shelvesOf_of_remove hremove

theorem handleJoin_shelves : shelvesOf (handleJoin command conn me w).reg = shelvesOf w.reg := by
  unfold handleJoin
  split
  · rfl
  · simp only
    split
    · split
      · rename_i hadd
        exact (shelvesOf_of_add hadd).trans joinLeave_shelves
      · rename_i hadd
        exact (shelvesOf_of_add hadd).trans joinLeave_shelves
    · exact joinLeave_shelves

theorem handleLeave_shelves : shelvesOf (handleLeave conn me w).reg = shelvesOf w.reg := by
  unfold handleLeave
  split
  · rfl
  · split
    · rename_i reg hremove
      have hkeep : shelvesOf reg = shelvesOf w.reg := shelvesOf_of_remove hremove
      exact shelvesOf_roomDeleteIfEmpty.trans hkeep
    · rename_i hremove
      exact shelvesOf_of_remove hremove

theorem handleKick_shelves : shelvesOf (handleKick command conn me w).reg = shelvesOf w.reg := by
  unfold handleKick
  split
  · rfl
  · split_ifs
    · rfl
    · split
      · rfl
      · split_ifs
        · rfl
        · split
          · rfl
          · split_ifs
            · rfl
            · split
              · rename_i reg hremove
                have hkeep : shelvesOf reg = shelvesOf w.reg := shelvesOf_of_remove hremove
                exact shelvesOf_roomDeleteIfEmpty.trans hkeep
              · rename_i hremove
                exact shelvesOf_of_remove hremove

theorem handlePromote_shelves :
    shelvesOf (handlePromote command conn me w).reg = shelvesOf w.reg := by
  unfold handlePromote
  split
  · rfl
  · split_ifs
    · rfl
    · split
      · rfl
      · split
        · rfl
        · split_ifs
          · rfl
          · exact shelvesOf_setAdmin

theorem handleHistory_reg : (handleHistory env command conn me w).reg = w.reg := by
  unfold handleHistory
  split
  · rfl
  · split <;> rfl

theorem handlePm_shelves :
    shelvesOf (handlePm env command conn me w).reg = shelvesOf w.reg := by
  unfold handlePm
  split
  · rfl
  · split
    · rfl
    · split_ifs
      · rfl
      · split
        · rename_i hrate
          exact shelvesOf_of_rateLimit hrate
        · rename_i hrate
          split
          · exact shelvesOf_of_rateLimit hrate
          · exact shelvesOf_of_rateLimit hrate

theorem handleStatus_shelves :
    shelvesOf (handleStatus command conn me w).reg = shelvesOf w.reg := by
  unfold handleStatus
  split
  · rfl
  · split
    · rfl
    · simp only
      split
      · rfl
      · split_ifs <;> rfl

theorem handleWho_reg : (handleWho command conn me w).reg = w.reg := by
  unfold handleWho
  split <;> rfl

theorem leaveLastRoom_shelves : shelvesOf (leaveLastRoom conn me w).reg = shelvesOf w.reg := by
  unfold leaveLastRoom
  split
  · rfl
  · exact shelvesOf_roomDeleteIfEmpty.trans shelvesOf_roomRemoveMember

theorem handleLogout_shelves : shelvesOf (handleLogout conn me w).reg = shelvesOf w.reg :=
  shelvesOf_deleteClient.trans leaveLastRoom_shelves

theorem handleLogoutAll_shelves :
    shelvesOf (handleLogoutAll env conn me w).reg = shelvesOf w.reg :=
  shelvesOf_deleteClient.trans leaveLastRoom_shelves

theorem handleRead_reg : (handleRead env command conn me w).reg = w.reg := by
  unfold handleRead
  split
  · rfl
  · simp only
    split_ifs
    · rfl
    · split
      · split <;> rfl
      · rfl

theorem handleAccept_shelves :
    shelvesOf (handleAccept env command conn me w).reg = shelvesOf w.reg := by
  unfold handleAccept
  split
  · rfl
  · simp only
    split_ifs
    · rfl
    · split
      · rfl
      · rename_i room _
        exact shelvesOf_moveTo

theorem evictBanned_shelves {target : Text} :
    shelvesOf (evictBanned room target w).reg = shelvesOf w.reg := by
  unfold evictBanned
  split
  · rfl
  · split_ifs
    · exact shelvesOf_roomRemoveMember
    · rfl

theorem handleBan_shelves :
    shelvesOf (handleBan env command conn me w).reg = shelvesOf w.reg := by
  unfold handleBan
  split
  · rfl
  · simp only
    split_ifs
    · rfl
    · split
      · rfl
      · split
        · exact evictBanned_shelves
        · rfl

theorem handleInvite_reg : (handleInvite env command conn me w).reg = w.reg := by
  unfold handleInvite
  split
  · rfl
  · simp only
    split_ifs
    · rfl
    · split
      · rfl
      · split_ifs
        · rfl
        · split
          · split <;> rfl
          · rfl

theorem handleTyping_reg : (handleTyping env conn me w).reg = w.reg := by
  unfold handleTyping
  split
  · rfl
  · simp only
    split_ifs <;> rfl

theorem handleStopTyping_reg : (handleStopTyping conn me w).reg = w.reg := by
  unfold handleStopTyping
  simp only
  split <;> rfl

theorem handleRevokeSession_reg : (handleRevokeSession env command conn w).reg = w.reg := by
  unfold handleRevokeSession
  split
  · rfl
  · split <;> rfl

theorem replyResult_reg {status errCode : Text} {result : Bool × Database} :
    (replyResult conn status errCode result w).reg = w.reg := by
  unfold replyResult
  split_ifs <;> rfl

theorem handleMute_reg : (handleMute env command conn me w).reg = w.reg := by
  unfold handleMute
  split
  · rfl
  · simp only
    split_ifs
    · rfl
    · split
      · rfl
      · exact replyResult_reg

theorem handleUnmute_keeps : (handleUnmute env command conn me w).reg = w.reg := by
  unfold handleUnmute
  split
  · rfl
  · split
    · rfl
    · exact replyResult_reg

theorem handleBlock_reg : (handleBlock env command conn me w).reg = w.reg := by
  unfold handleBlock
  split
  · rfl
  · exact replyResult_reg

theorem handleUnblock_reg : (handleUnblock env command conn me w).reg = w.reg := by
  unfold handleUnblock
  split
  · rfl
  · exact replyResult_reg

theorem handleDemote_reg : (handleDemote env command conn me w).reg = w.reg := by
  unfold handleDemote
  split
  · rfl
  · simp only
    split_ifs
    · rfl
    · split
      · rfl
      · split_ifs <;> rfl

theorem handleDecline_reg : (handleDecline env command conn me w).reg = w.reg := by
  unfold handleDecline
  split <;> rfl

/-! ## Commands that change the messages -/

theorem handleCreate_archive (ht : command.type = .create) :
    (handleCreate env command conn me w).archive = w.archive ∨
      Archives env w me command (handleCreate env command conn me w).archive := by
  unfold handleCreate
  split
  · exact .inl rfl
  · rename_i n h₁
    split
    · rename_i room reg hcreate
      obtain ⟨r, rfl, -⟩ := createRoom_ok hcreate
      have hmade : Archives env w me command (archiveOf reg w.db) := .create (.inl ht) h₁ hcreate
      split
      · rename_i reg' hadd
        have hkeep : shelvesOf reg' = shelvesOf reg := shelvesOf_of_add hadd
        exact .inr (by simpa [archive, archiveOf, hkeep] using hmade)
      · rename_i reg' _ hadd
        have hkeep : shelvesOf reg' = shelvesOf reg := shelvesOf_of_add hadd
        exact .inr (by simpa [archive, archiveOf, hkeep] using hmade)
    · rename_i herr hcreate
      obtain rfl := createRoom_err herr hcreate
      exact .inl rfl

theorem handleCreatePrivate_archive (ht : command.type = .createPrivate) :
    (handleCreatePrivate env command conn me w).archive = w.archive ∨
      Archives env w me command (handleCreatePrivate env command conn me w).archive := by
  have hdb : (handleCreatePrivate env command conn me w).db.messages = w.db.messages :=
    handleCreatePrivate_writes .messages (by simp [CmdType.writes])
  have hkept (h : shelvesOf (handleCreatePrivate env command conn me w).reg = shelvesOf w.reg) :
      (handleCreatePrivate env command conn me w).archive = w.archive := by
    simp only [archive, archiveOf, hdb, h]
  have hmade {n : Text} {r : RoomPtr} {reg : Registry} (h₁ : command.arg1 = some n)
      (hcreate : createRoom env (some n) (some me) w.db w.reg = (.ok, some r, reg))
      (h : shelvesOf (handleCreatePrivate env command conn me w).reg = shelvesOf reg) :
      Archives env w me command (handleCreatePrivate env command conn me w).archive := by
    have hnew : Archives env w me command (archiveOf reg w.db) := .create (.inr ht) h₁ hcreate
    simpa only [archive, archiveOf, hdb, h] using hnew
  cases h₁ : command.arg1 with
  | none => exact .inl (hkept (by simp [handleCreatePrivate, h₁]))
  | some n =>
    rcases hcreate : createRoom env (some n) (some me) w.db w.reg with ⟨err, room, reg⟩
    by_cases herr : err = .ok
    · subst herr
      obtain ⟨r, rfl, -⟩ := createRoom_ok hcreate
      refine .inr (hmade h₁ hcreate ?_)
      simp only [handleCreatePrivate, h₁, hcreate]
      rcases hadd : roomAddMember (some r) (some me) reg with ⟨err, reg'⟩
      have hkeep : shelvesOf reg' = shelvesOf reg := shelvesOf_of_add hadd
      cases err <;> exact hkeep
    · refine .inl (hkept ?_)
      have hreg := createRoom_err herr hcreate
      simp only [handleCreatePrivate, h₁, hcreate]
      subst hreg
      cases err with
      | ok => exact absurd rfl herr
      | _ => rfl

theorem handleMsg_added (hcur : (w.client me).currentRoom = some room)
    (hrate : (rateLimitCheck env me w.reg).1 = true) (h₁ : command.arg1 = some text)
    (htext : text ≠ []) :
    (handleMsg env command conn me w).archive = archiveOf
      (roomAddHistory env room (w.client me).clientName text w.db w.reg).2.2
      (roomAddHistory env room (w.client me).clientName text w.db w.reg).2.1 := by
  rcases hlimit : rateLimitCheck env me w.reg with ⟨ok, reg⟩
  obtain rfl : ok = true := by rw [hlimit] at hrate; exact hrate
  obtain ⟨-, hdb, hshelves⟩ := roomAddHistory_shelves env room (w.client me).clientName text w.db
    (shelvesOf_of_rateLimit hlimit)
  simp only [handleMsg, hcur, hlimit, h₁, htext, if_false]
  rw [archiveOf, ← hdb, ← hshelves]
  rfl

theorem handleMsg_archive (ht : command.type = .msg) :
    (handleMsg env command conn me w).archive = w.archive ∨
      Archives env w me command (handleMsg env command conn me w).archive := by
  rcases hrate : rateLimitCheck env me w.reg with ⟨ok, reg⟩
  have hkeep : shelvesOf reg = shelvesOf w.reg := shelvesOf_of_rateLimit hrate
  cases hcur : (w.client me).currentRoom with
  | none => exact .inl (by simp [handleMsg, hcur, archive, archiveOf])
  | some room =>
    cases ok with
    | false => exact .inl (by simp [handleMsg, hcur, hrate, archive, archiveOf, hkeep])
    | true =>
      cases h₁ : command.arg1 with
      | none => exact .inl (by simp [handleMsg, hcur, hrate, h₁, archive, archiveOf, hkeep])
      | some text =>
        by_cases htext : text = []
        · exact .inl (by
            simp [handleMsg, hcur, hrate, h₁, htext, archive, archiveOf, hkeep])
        · have hfree : (rateLimitCheck env me w.reg).1 = true := by rw [hrate]
          rw [handleMsg_added hcur hfree h₁ htext]
          exact .inr (.msg ht h₁ hcur htext hfree rfl)

theorem roomEditMessage_err {msgId : ℤ} {requester newText : Text} {res : ChangeResult}
    {db' : Database} (hres : res ≠ .ok)
    (h : roomEditMessage env room msgId requester newText db reg = (res, db', reg')) :
    db' = db ∧ reg' = reg := by
  unfold roomEditMessage at h
  split at h
  · cases h
    exact absurd rfl hres
  · cases h
    exact ⟨rfl, rfl⟩

theorem roomDeleteMessage_err {msgId : ℤ} {requester : Text} {isAdmin : Bool} {res : ChangeResult}
    {db' : Database} (hres : res ≠ .ok)
    (h : roomDeleteMessage env room msgId requester isAdmin db reg = (res, db', reg')) :
    db' = db ∧ reg' = reg := by
  unfold roomDeleteMessage at h
  split at h
  · cases h
    exact absurd rfl hres
  · cases h
    exact ⟨rfl, rfl⟩

theorem handleEdit_archive (ht : command.type = .edit) :
    (handleEdit env command conn me w).archive = w.archive ∨
      Archives env w me command (handleEdit env command conn me w).archive := by
  unfold handleEdit
  cases hcur : (w.client me).currentRoom with
  | none => exact .inl rfl
  | some room =>
    cases h₁ : command.arg1 with
    | none => exact .inl rfl
    | some idStr =>
      cases h₂ : command.arg2 with
      | none => exact .inl rfl
      | some newText =>
        simp only
        split_ifs with htext hid
        · exact .inl rfl
        · exact .inl rfl
        · rcases hedit : roomEditMessage env room (atoll idStr) (w.client me).clientName newText
            w.db w.reg with ⟨res, db, reg⟩
          by_cases hres : res = .ok
          · subst hres
            exact .inr (.edit ht h₁ h₂ hcur htext (not_le.mp hid) hedit)
          · obtain ⟨rfl, rfl⟩ := roomEditMessage_err hres hedit
            refine .inl ?_
            cases res with
            | ok => exact absurd rfl hres
            | _ => rfl

theorem handleDelete_archive (ht : command.type = .delete) :
    (handleDelete env command conn me w).archive = w.archive ∨
      Archives env w me command (handleDelete env command conn me w).archive := by
  unfold handleDelete
  cases hcur : (w.client me).currentRoom with
  | none => exact .inl rfl
  | some room =>
    cases h₁ : command.arg1 with
    | none => exact .inl rfl
    | some idStr =>
      simp only
      split_ifs with hid
      · exact .inl rfl
      · rcases hdelete : roomDeleteMessage env room (atoll idStr) (w.client me).clientName
          ((w.room room).adminClient = some me) w.db w.reg with ⟨res, db, reg⟩
        by_cases hres : res = .ok
        · subst hres
          exact .inr (.delete ht h₁ hcur (not_le.mp hid) hdelete)
        · obtain ⟨rfl, rfl⟩ := roomDeleteMessage_err hres hdelete
          refine .inl ?_
          cases res with
          | ok => exact absurd rfl hres
          | _ => rfl

/-! ## Events -/

theorem archive_of_kept {w' : World} (hdb : w'.db.messages = w.db.messages)
    (hreg : shelvesOf w'.reg = shelvesOf w.reg) : w'.archive = w.archive := by
  simp only [archive, archiveOf, hdb, hreg]

theorem dispatch_archive_kept (hmsg : command.type ≠ .msg) (hedit : command.type ≠ .edit)
    (hdelete : command.type ≠ .delete) (hcreate : command.type ≠ .create)
    (hprivate : command.type ≠ .createPrivate) :
    (dispatch env command conn me w).archive = w.archive := by
  have hdb : (dispatch env command conn me w).db.messages = w.db.messages := by
    refine dispatch_writes .messages ?_
    cases ht : command.type <;> simp [CmdType.writes, ht] at *
  refine archive_of_kept hdb ?_
  unfold dispatch
  cases ht : command.type with
  | invalid => rfl
  | register => exact handleRegister_shelves
  | login => exact handleLogin_shelves
  | reconnect => exact handleReconnect_shelves
  | create => exact absurd ht hcreate
  | join => exact handleJoin_shelves
  | leave => exact handleLeave_shelves
  | kick => exact handleKick_shelves
  | promote => exact handlePromote_shelves
  | msg => exact absurd ht hmsg
  | edit => exact absurd ht hedit
  | delete => exact absurd ht hdelete
  | history => exact congrArg shelvesOf handleHistory_reg
  | pm => exact handlePm_shelves
  | rooms => rfl
  | status => exact handleStatus_shelves
  | who => exact congrArg shelvesOf handleWho_reg
  | logout => exact handleLogout_shelves
  | logoutAll => exact handleLogoutAll_shelves
  | sessions => rfl
  | revokeSession => exact congrArg shelvesOf handleRevokeSession_reg
  | read => exact congrArg shelvesOf handleRead_reg
  | typing => exact congrArg shelvesOf handleTyping_reg
  | stopTyping => exact congrArg shelvesOf handleStopTyping_reg
  | block => exact congrArg shelvesOf handleBlock_reg
  | unblock => exact congrArg shelvesOf handleUnblock_reg
  | mute => exact congrArg shelvesOf handleMute_reg
  | unmute => exact congrArg shelvesOf handleUnmute_keeps
  | ban => exact handleBan_shelves
  | demote => exact congrArg shelvesOf handleDemote_reg
  | createPrivate => exact absurd ht hprivate
  | invite => exact congrArg shelvesOf handleInvite_reg
  | accept => exact handleAccept_shelves
  | decline => exact congrArg shelvesOf handleDecline_reg

theorem dispatch_archive (env : Env) (command : Cmd) (conn : Conn) (me : ClientPtr) (w : World) :
    (dispatch env command conn me w).archive = w.archive ∨
      Archives env w me command (dispatch env command conn me w).archive := by
  by_cases hmsg : command.type = .msg
  · simpa only [dispatch, hmsg] using handleMsg_archive hmsg
  by_cases hedit : command.type = .edit
  · simpa only [dispatch, hedit] using handleEdit_archive hedit
  by_cases hdelete : command.type = .delete
  · simpa only [dispatch, hdelete] using handleDelete_archive hdelete
  by_cases hcreate : command.type = .create
  · simpa only [dispatch, hcreate] using handleCreate_archive hcreate
  by_cases hprivate : command.type = .createPrivate
  · simpa only [dispatch, hprivate] using handleCreatePrivate_archive hprivate
  exact .inl (dispatch_archive_kept hmsg hedit hdelete hcreate hprivate)

theorem dispatchAnonymous_archive : (dispatchAnonymous env command conn w).archive = w.archive := by
  refine archive_of_kept ?_ ?_
  · exact dispatchAnonymous_writes .messages (by simp [CmdType.writes])
  · unfold dispatchAnonymous
    split
    · exact handleRegister_shelves
    · exact handleLogin_shelves
    · exact handleReconnect_shelves
    · rfl

theorem Archives.of_out {outs : List Output} {broadcasts : List Text} {a : Archive}
    (h : Archives env { w with out := outs, broadcasts } me command a) :
    Archives env w me command a := by
  cases h with
  | create ht h₁ made => exact .create ht h₁ made
  | msg ht h₁ inside htext free added => exact .msg ht h₁ inside htext free added
  | edit ht h₁ h₂ inside htext hpos edited => exact .edit ht h₁ h₂ inside htext hpos edited
  | delete ht h₁ inside hpos deleted => exact .delete ht h₁ inside hpos deleted

/-- An event keeps the messages, or it is a client's command that may change them. -/
theorem step_archive (w : World) (env : Env) (e : Event) :
    (step w (env, e)).archive = w.archive ∨
      ∃ conn me command, Commands w e conn me command ∧
        Archives env w me command (step w (env, e)).archive := by
  cases e with
  | accept fd ssl =>
    simp only [step, handleEvent]
    split_ifs <;> exact .inl rfl
  | line fd text =>
    simp only [step, handleEvent]
    cases hconn : w.conns.get fd with
    | none => exact .inl rfl
    | some conn =>
      obtain rfl := w.conns.fd_eq _ _ hconn
      simp only [processLine]
      cases hme : conn.me with
      | none =>
        refine .inl ?_
        split_ifs
        · rfl
        · rfl
        · exact dispatchAnonymous_archive
      | some me =>
        simp only
        split_ifs
        · exact .inl rfl
        · exact .inl rfl
        · rcases dispatch_archive env (parseLine text) conn me
              { w with out := [], broadcasts := [] } with
            hkept | hchange
          · exact .inl hkept
          · exact .inr ⟨conn, me, _, ⟨text, rfl, hconn, hme, rfl⟩, hchange.of_out⟩
  | disconnect fd =>
    simp only [step, handleEvent]
    split
    · exact .inl rfl
    · rename_i conn _
      refine .inl (archive_of_kept (congrArg Database.messages disconnectCleanup_db) ?_)
      unfold disconnectCleanup
      split
      · rfl
      · exact shelvesOf_deleteClient.trans leaveLastRoom_shelves
  | cleanup => exact .inl rfl
  | shutdown => exact .inl rfl

end ChatServer
