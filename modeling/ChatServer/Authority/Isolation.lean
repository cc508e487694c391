import ChatServer.History.Archive

/-! # What a command leaves alone

An event changes no other rooms than the one it makes, its client's own and the
one it enters, and no other clients than the one it logs in, its own and a room
mate that it puts out. All others keep their memory and stay in the lists or out
of them.
-/

namespace ChatServer

open Library World

/-- The rooms and clients that a change may concern. -/
structure Scope where
  room : RoomPtr → Prop
  client : ClientPtr → Prop

/-- What is out of a scope keeps its memory and is listed exactly if it was. -/
structure Spares (S : Scope) (reg reg' : Registry) : Prop where
  rooms : ∀ r, ¬ S.room r → reg'.rooms r = reg.rooms r ∧ (r ∈ reg'.roomList ↔ r ∈ reg.roomList)
  clients : ∀ c, ¬ S.client c →
    reg'.clients c = reg.clients c ∧ (c ∈ reg'.clientList ↔ c ∈ reg.clientList)
  limits : reg'.maxMembers = reg.maxMembers ∧ reg'.historySize = reg.historySize

/-- A line or the end of a logged-in client's connection. -/
def Acts (w : World) (e : Event) (me : ClientPtr) : Prop :=
  ∃ fd conn, ((∃ text, e = .line fd text) ∨ e = .disconnect fd) ∧ w.conns.get fd = some conn ∧
    conn.me = some me

/-- The room that a CREATE or a CREATE_PRIVATE makes. -/
def Makes (env : Env) (w : World) (command : Cmd) (me : ClientPtr) (r : RoomPtr) : Prop :=
  (command.type = .create ∨ command.type = .createPrivate) ∧ ∃ n reg, command.arg1 = some n ∧
    createRoom env (some n) (some me) w.db w.reg = (.ok, some r, reg)

/-- The client that a REGISTER, LOGIN or RECONNECT with good credentials makes. -/
def LogsIn (env : Env) (w : World) (conn : Conn) (command : Cmd) (c : ClientPtr) : Prop :=
  ∃ n reg, Permits env w.reg w.db conn command (.login conn.fd c n) ∧
    (if command.type = .register then createClient env conn.fd n w.reg
      else replaceClient env conn.fd n w.reg) = (.ok, some c, reg)

/-- The rooms of an event: the one it makes, its client's own, and the one it enters. -/
inductive TouchesRoom (env : Env) (w : World) (e : Event) (r : RoomPtr) : Prop
  | made {conn : Conn} {me : ClientPtr} {command : Cmd} (hcmd : Commands w e conn me command)
      (h : Makes env w command me r)
  | own {me : ClientPtr} (acts : Acts w e me) (inside : (w.client me).currentRoom = some r)
  | entered {conn : Conn} {me : ClientPtr} {command : Cmd} (hcmd : Commands w e conn me command)
      (ht : command.type = .join ∨ command.type = .accept)
      (h₁ : command.arg1 = some (w.room r).roomName)

/-- The clients of an event: the one it logs in, its own, and a room mate that it puts out. -/
inductive TouchesClient (env : Env) (w : World) (e : Event) (c : ClientPtr) : Prop
  | loggedIn {fd : Fd} {text : Text} {conn : Conn} (he : e = .line fd text)
      (hconn : w.conns.get fd = some conn) (h : LogsIn env w conn (parseLine text) c)
  | own (acts : Acts w e c)
  | mate {conn : Conn} {me : ClientPtr} {command : Cmd} {room : RoomPtr}
      (hcmd : Commands w e conn me command) (ht : command.type = .kick ∨ command.type = .ban)
      (h₁ : command.arg1 = some (w.client c).clientName)
      (inside : (w.client me).currentRoom = some room)
      (beside : (w.client c).currentRoom = some room)

def touches (env : Env) (w : World) (e : Event) : Scope :=
  ⟨TouchesRoom env w e, TouchesClient env w e⟩

variable {env : Env} {w : World} {e : Event} {command : Cmd} {conn : Conn} {me c : ClientPtr}
  {r room : RoomPtr} {reg reg' : Registry} {db : Database} {n : Text} {S : Scope}

/-! ## Functions of the registry -/

namespace Spares

@[refl] theorem refl (S : Scope) (reg : Registry) : Spares S reg reg :=
  ⟨fun _ _ => ⟨rfl, Iff.rfl⟩, fun _ _ => ⟨rfl, Iff.rfl⟩, rfl, rfl⟩

theorem of_eq (h : reg' = reg) : Spares S reg reg' := h ▸ refl S reg

theorem trans {reg'' : Registry} (h₁ : Spares S reg reg') (h₂ : Spares S reg' reg'') :
    Spares S reg reg'' where
  rooms r hr := ⟨(h₂.rooms r hr).1.trans (h₁.rooms r hr).1,
    (h₂.rooms r hr).2.trans (h₁.rooms r hr).2⟩
  clients c hc := ⟨(h₂.clients c hc).1.trans (h₁.clients c hc).1,
    (h₂.clients c hc).2.trans (h₁.clients c hc).2⟩
  limits := ⟨h₂.limits.1.trans h₁.limits.1, h₂.limits.2.trans h₁.limits.2⟩

theorem setRoom {m : Room} (hr : S.room r) : Spares S reg (reg.setRoom r m) := by
  refine ⟨fun r' hr' => ⟨?_, Iff.rfl⟩, fun _ _ => ⟨rfl, Iff.rfl⟩, rfl, rfl⟩
  have hne : r' ≠ r := fun he => hr' (he ▸ hr)
  exact Function.update_of_ne hne _ _

theorem setClient {m : Client} (hc : S.client c) : Spares S reg (reg.setClient c m) := by
  refine ⟨fun _ _ => ⟨rfl, Iff.rfl⟩, fun c' hc' => ⟨?_, Iff.rfl⟩, rfl, rfl⟩
  have hne : c' ≠ c := fun he => hc' (he ▸ hc)
  exact Function.update_of_ne hne _ _

theorem setCurrentRoom {o : Option RoomPtr} (hc : S.client c) :
    Spares S reg (reg.setCurrentRoom c o) := setClient hc

theorem addRoom (hr : S.room r) : Spares S reg { reg with roomList := reg.roomList ++ [r] } := by
  refine ⟨fun r' hr' => ⟨rfl, ?_⟩, fun _ _ => ⟨rfl, Iff.rfl⟩, rfl, rfl⟩
  have hne : r' ≠ r := fun he => hr' (he ▸ hr)
  simp [hne]

theorem addClient (hc : S.client c) :
    Spares S reg { reg with clientList := reg.clientList ++ [c] } := by
  refine ⟨fun _ _ => ⟨rfl, Iff.rfl⟩, fun c' hc' => ⟨rfl, ?_⟩, rfl, rfl⟩
  have hne : c' ≠ c := fun he => hc' (he ▸ hc)
  simp [hne]

theorem createRoom {err : RoomErr} {o : Option RoomPtr}
    (h : createRoom env (some n) (some c) db reg = (err, o, reg'))
    (hmade : ∀ r, err = .ok → o = some r → S.room r) : Spares S reg reg' := by
  by_cases herr : err = .ok
  · subst herr
    obtain ⟨r, rfl, -, -, -, rfl⟩ := createRoom_ok h
    exact (setRoom (hmade r rfl rfl)).trans (addRoom (hmade r rfl rfl))
  · exact of_eq (createRoom_err herr h)

theorem roomAddMember (hr : S.room r) :
    Spares S reg (roomAddMember (some r) (some c) reg).2 := by
  rcases roomAddMember_cases reg r c with ⟨h, -⟩ | ⟨h, -⟩ | ⟨h, -⟩ <;> rw [h]
  exact setRoom hr

theorem roomRemoveMember (hr : S.room r) :
    Spares S reg (roomRemoveMember (some r) (some c) reg).2 := by
  rw [roomRemoveMember_snd]
  exact setRoom hr

theorem takeOut (hr : S.room r) (hc : S.client c) :
    Spares S reg ((ChatServer.roomRemoveMember (some r) (some c) reg).2.setCurrentRoom c none) :=
  (roomRemoveMember hr).trans (setCurrentRoom hc)

theorem roomDeleteIfEmpty (hr : S.room r) : Spares S reg (roomDeleteIfEmpty r reg) := by
  unfold ChatServer.roomDeleteIfEmpty deleteRoom
  split_ifs
  · simp only
    split_ifs
    · refine ⟨fun r' hr' => ⟨rfl, ?_⟩, fun _ _ => ⟨rfl, Iff.rfl⟩, rfl, rfl⟩
      exact List.mem_erase_of_ne fun he => hr' (he ▸ hr)
    · rfl
  · rfl

theorem deleteClient (hc : S.client c) : Spares S reg (deleteClient (some c) reg).2 := by
  rw [deleteClient_snd]
  refine ⟨fun _ _ => ⟨rfl, Iff.rfl⟩, fun c' hc' => ⟨rfl, ?_⟩, rfl, rfl⟩
  exact List.mem_erase_of_ne fun he => hc' (he ▸ hc)

theorem createClientWith {check : Bool} {fd : Fd} {err : ClientErr} {o : Option ClientPtr}
    (h : createClientWith env check fd n reg = (err, o, reg'))
    (hmade : ∀ c, err = .ok → o = some c → S.client c) : Spares S reg reg' := by
  by_cases herr : err = .ok
  · subst herr
    obtain ⟨c, rfl, -, -, rfl⟩ := createClientWith_ok h
    exact (setClient (hmade c rfl rfl)).trans (addClient (hmade c rfl rfl))
  · exact of_eq (createClientWith_err herr h).2

theorem replaceClient {fd : Fd} {err : ClientErr} {o : Option ClientPtr}
    (h : replaceClient env fd n reg = (err, o, reg'))
    (hmade : ∀ c, err = .ok → o = some c → S.client c) : Spares S reg reg' := by
  rw [replaceClient_eq] at h
  exact createClientWith h hmade

theorem rateLimitCheck {ok : Bool} (hc : S.client c)
    (h : rateLimitCheck env c reg = (ok, reg')) : Spares S reg reg' := by
  have hreg : reg' = (ChatServer.rateLimitCheck env c reg).2 := by rw [h]
  rw [hreg]
  unfold ChatServer.rateLimitCheck
  simp only
  split_ifs <;> exact setClient hc

theorem roomAddHistory {sender text : Text} (hr : S.room r) :
    Spares S reg (roomAddHistory env r sender text db reg).2.2 := by
  unfold ChatServer.roomAddHistory
  simp only
  split_ifs
  · rfl
  · rfl
  · exact setRoom hr
  · exact setRoom hr

theorem roomEditMessage {msgId : ℤ} {requester newText : Text} (hr : S.room r) :
    Spares S reg (roomEditMessage env r msgId requester newText db reg).2.2 := by
  unfold ChatServer.roomEditMessage
  split
  · exact setRoom hr
  · rfl

theorem roomDeleteMessage {msgId : ℤ} {requester : Text} {isAdmin : Bool} (hr : S.room r) :
    Spares S reg (roomDeleteMessage env r msgId requester isAdmin db reg).2.2 := by
  unfold ChatServer.roomDeleteMessage
  split
  · exact setRoom hr
  · rfl

end Spares

/-! ## Commands -/

theorem handleRegister_spares (ht : command.type = .register)
    (hnew : ∀ c, LogsIn env w conn command c → S.client c) :
    Spares S w.reg (handleRegister env command conn w).reg := by
  unfold handleRegister
  split_ifs with hme
  · rfl
  · split
    · rename_i username password h₁ h₂
      split
      · rfl
      · rfl
      · rename_i db hinserted
        split_ifs
        · rfl
        · have hmade (err : ClientErr) (o : Option ClientPtr) (reg : Registry)
              (h : createClient env conn.fd username w.reg = (err, o, reg)) :
              Spares S w.reg reg := by
            refine .createClientWith h fun c herr ho =>
              hnew c ⟨username, reg, .register ht (not_not.mp hme) h₁ h₂ ?_, ?_⟩
            · rw [hinserted]
            · rw [if_pos ht, h, herr, ho]
          split
          · rename_i hcreate
            rw [grantSession_reg]
            exact hmade _ _ _ hcreate
          · exact hmade _ _ _ ‹_›
    · rfl

theorem handleLogin_spares (ht : command.type = .login)
    (hnew : ∀ c, LogsIn env w conn command c → S.client c) :
    Spares S w.reg (handleLogin env command conn w).reg := by
  unfold handleLogin
  split_ifs with hme
  · rfl
  · split
    · rename_i username password h₁ h₂
      split
      · rfl
      · rfl
      · rfl
      · rename_i hverified
        have hmade (err : ClientErr) (o : Option ClientPtr) (reg : Registry)
            (h : replaceClient env conn.fd username w.reg = (err, o, reg)) :
            Spares S w.reg reg := by
          refine .replaceClient h fun c herr ho =>
            hnew c ⟨username, reg, .login ht (not_not.mp hme) h₁ h₂ hverified, ?_⟩
          rw [if_neg (by rw [ht]; decide), h, herr, ho]
        split
        · rename_i hcreate
          rw [grantSession_reg]
          exact hmade _ _ _ hcreate
        · exact hmade _ _ _ ‹_›
    · rfl

theorem handleReconnect_spares (ht : command.type = .reconnect)
    (hnew : ∀ c, LogsIn env w conn command c → S.client c) :
    Spares S w.reg (handleReconnect env command conn w).reg := by
  unfold handleReconnect
  split_ifs with hme
  · rfl
  · split
    · rfl
    · rename_i token h₁
      split
      · rfl
      · rfl
      · rfl
      · rename_i username db hvalid
        have hmade (err : ClientErr) (o : Option ClientPtr) (reg : Registry)
            (h : replaceClient env conn.fd username w.reg = (err, o, reg)) :
            Spares S w.reg reg := by
          refine .replaceClient h fun c herr ho =>
            hnew c ⟨username, reg, .reconnect ht (not_not.mp hme) h₁ ?_, ?_⟩
          · rw [hvalid]
          · rw [if_neg (by rw [ht]; decide), h, herr, ho]
        split_ifs
        · rfl
        · split
          · rename_i hcreate
            rw [grantSession_reg]
            exact hmade _ _ _ hcreate
          · exact hmade _ _ _ ‹_›

theorem dispatchAnonymous_spares (hnew : ∀ c, LogsIn env w conn command c → S.client c) :
    Spares S w.reg (dispatchAnonymous env command conn w).reg := by
  unfold dispatchAnonymous
  split
  · exact handleRegister_spares ‹_› hnew
  · exact handleLogin_spares ‹_› hnew
  · exact handleReconnect_spares ‹_› hnew
  · rfl

theorem leaveLastRoom_spares (hroom : ∀ r, (w.client me).currentRoom = some r → S.room r)
    (hme : S.client me) : Spares S w.reg (leaveLastRoom conn me w).reg := by
  unfold leaveLastRoom
  split
  · rfl
  · rename_i room hcur
    exact (Spares.takeOut (hroom room hcur) hme).trans (.roomDeleteIfEmpty (hroom room hcur))

/-- The scope has all that a client's command may change. -/
structure Covers (env : Env) (S : Scope) (w : World) (conn : Conn) (command : Cmd)
    (me : ClientPtr) : Prop where
  made : ∀ r, Makes env w command me r → S.room r
  ownRoom : ∀ r, (w.client me).currentRoom = some r → S.room r
  entered : ∀ r, command.type = .join ∨ command.type = .accept →
    command.arg1 = some (w.room r).roomName → S.room r
  loggedIn : ∀ c, LogsIn env w conn command c → S.client c
  own : S.client me
  mate : ∀ c room, command.type = .kick ∨ command.type = .ban →
    command.arg1 = some (w.client c).clientName → (w.client me).currentRoom = some room →
    (w.client c).currentRoom = some room → S.client c

namespace Covers

theorem createRoom_spares {err : RoomErr} {o : Option RoomPtr}
    (ht : command.type = .create ∨ command.type = .createPrivate) (h₁ : command.arg1 = some n)
    (h : Covers env S w conn command me)
    (hcreate : createRoom env (some n) (some me) w.db w.reg = (err, o, reg)) :
    Spares S w.reg reg :=
  .createRoom hcreate fun r herr ho => h.made r ⟨ht, n, reg, h₁, by rw [hcreate, herr, ho]⟩

theorem handleCreate (ht : command.type = .create) (h : Covers env S w conn command me) :
    Spares S w.reg (handleCreate env command conn me w).reg := by
  unfold ChatServer.handleCreate
  split
  · rfl
  · rename_i n h₁
    split
    · rename_i room reg hcreate
      have hroom := h.createRoom_spares (.inl ht) h₁ hcreate
      obtain ⟨r, rfl, -⟩ := createRoom_ok hcreate
      have hadd : Spares S w.reg (roomAddMember (some r) (some me) reg).2 :=
        hroom.trans (.roomAddMember (h.made r ⟨.inl ht, n, reg, h₁, hcreate⟩))
      split
      · rename_i hmember
        rw [hmember] at hadd
        exact hadd.trans (.setCurrentRoom h.own)
      · rename_i hmember
        rw [hmember] at hadd
        exact hadd
    · exact h.createRoom_spares (.inl ht) h₁ ‹_›

theorem handleCreatePrivate (ht : command.type = .createPrivate)
    (h : Covers env S w conn command me) :
    Spares S w.reg (handleCreatePrivate env command conn me w).reg := by
  unfold ChatServer.handleCreatePrivate
  split
  · rfl
  · rename_i n h₁
    split
    · rename_i room reg hcreate
      have hroom := h.createRoom_spares (.inr ht) h₁ hcreate
      obtain ⟨r, rfl, -⟩ := createRoom_ok hcreate
      have hadd : Spares S w.reg (roomAddMember (some r) (some me) reg).2 :=
        hroom.trans (.roomAddMember (h.made r ⟨.inr ht, n, reg, h₁, hcreate⟩))
      split
      · rename_i hmember
        rw [hmember] at hadd
        exact hadd.trans (.setCurrentRoom h.own)
      · rename_i hmember
        rw [hmember] at hadd
        exact hadd
    · exact h.createRoom_spares (.inr ht) h₁ ‹_›
    · exact h.createRoom_spares (.inr ht) h₁ ‹_›

theorem joinLeave (h : Covers env S w conn command me) :
    Spares S w.reg (joinLeave conn me w).reg := by
  unfold ChatServer.joinLeave
  split
  · rfl
  · rename_i room hcur
    have hremove : Spares S w.reg (roomRemoveMember (some room) (some me) w.reg).2 :=
      .roomRemoveMember (h.ownRoom room hcur)
    split
    · rename_i hout
      rw [hout] at hremove
      exact hremove.trans (.setCurrentRoom h.own)
    · rename_i hout
      rw [hout] at hremove
      exact hremove

theorem handleJoin (ht : command.type = .join) (h : Covers env S w conn command me) :
    Spares S w.reg (handleJoin command conn me w).reg := by
  unfold ChatServer.handleJoin
  split
  · rfl
  · rename_i n h₁
    simp only
    split
    · rename_i r hfound
      have hname : (w.room r).roomName = n := by
        have hkept : shelvesOf (ChatServer.joinLeave conn me w).reg = shelvesOf w.reg :=
          joinLeave_shelves
        exact (shelf_eq hkept r).1.symm.trans (findRoom_some hfound).2
      have hr : S.room r := h.entered r (.inl ht) (by rw [h₁, hname])
      have hadd : Spares S w.reg
          (roomAddMember (some r) (some me) (ChatServer.joinLeave conn me w).reg).2 :=
        h.joinLeave.trans (.roomAddMember hr)
      split
      · rename_i hmember
        rw [hmember] at hadd
        exact hadd.trans (.setCurrentRoom h.own)
      · rename_i hmember
        rw [hmember] at hadd
        exact hadd
    · exact h.joinLeave

theorem handleLeave (h : Covers env S w conn command me) :
    Spares S w.reg (handleLeave conn me w).reg := by
  unfold ChatServer.handleLeave
  split
  · rfl
  · rename_i room hcur
    have hremove : Spares S w.reg (roomRemoveMember (some room) (some me) w.reg).2 :=
      .roomRemoveMember (h.ownRoom room hcur)
    split
    · rename_i hout
      rw [hout] at hremove
      exact (hremove.trans (.setCurrentRoom h.own)).trans (.roomDeleteIfEmpty (h.ownRoom room hcur))
    · rename_i hout
      rw [hout] at hremove
      exact hremove

theorem handleKick (ht : command.type = .kick) (h : Covers env S w conn command me) :
    Spares S w.reg (handleKick command conn me w).reg := by
  unfold ChatServer.handleKick
  split
  · rfl
  · rename_i room hcur
    have hroom := h.ownRoom room hcur
    split_ifs
    · rfl
    · split
      · rfl
      · rename_i targetName h₁
        split_ifs
        · rfl
        · split
          · rfl
          · rename_i target hfound
            split_ifs with hbeside
            · rfl
            · rw [not_not] at hbeside
              have hname := (findClient_some hfound).2
              have htarget : S.client target :=
                h.mate target room (.inl ht) (by rw [h₁, ← hname]; rfl) hcur hbeside
              have hremove : Spares S w.reg (roomRemoveMember (some room) (some target) w.reg).2 :=
                .roomRemoveMember hroom
              split
              · rename_i hout
                rw [hout] at hremove
                exact (hremove.trans (.setCurrentRoom htarget)).trans (.roomDeleteIfEmpty hroom)
              · rename_i hout
                rw [hout] at hremove
                exact hremove

theorem handlePromote (h : Covers env S w conn command me) :
    Spares S w.reg (handlePromote command conn me w).reg := by
  unfold ChatServer.handlePromote
  split
  · rfl
  · rename_i room hcur
    split_ifs
    · rfl
    · split
      · rfl
      · split
        · rfl
        · split_ifs
          · rfl
          · exact .setRoom (h.ownRoom room hcur)

theorem handleMsg (h : Covers env S w conn command me) :
    Spares S w.reg (handleMsg env command conn me w).reg := by
  unfold ChatServer.handleMsg
  split
  · rfl
  · rename_i room hcur
    split
    · exact .rateLimitCheck h.own ‹_›
    · rename_i hrate
      have hpaid : Spares S w.reg _ := .rateLimitCheck h.own hrate
      split
      · exact hpaid
      · split_ifs
        · exact hpaid
        · exact hpaid.trans (.roomAddHistory (h.ownRoom room hcur))

theorem handleEdit (h : Covers env S w conn command me) :
    Spares S w.reg (handleEdit env command conn me w).reg := by
  unfold ChatServer.handleEdit
  split
  · rfl
  · rename_i room hcur
    split
    · rename_i idStr newText _ _
      have hedit : Spares S w.reg (roomEditMessage env room (atoll idStr) (w.client me).clientName
          newText w.db w.reg).2.2 := .roomEditMessage (h.ownRoom room hcur)
      split_ifs
      · rfl
      · simp only
        split_ifs
        · rfl
        · split <;> rename_i hresult <;> rw [hresult] at hedit <;> exact hedit
    · rfl

theorem handleDelete (h : Covers env S w conn command me) :
    Spares S w.reg (handleDelete env command conn me w).reg := by
  unfold ChatServer.handleDelete
  split
  · rfl
  · rename_i room hcur
    split
    · rfl
    · rename_i idStr _
      have hdelete : Spares S w.reg (roomDeleteMessage env room (atoll idStr)
          (w.client me).clientName ((w.room room).adminClient = some me) w.db w.reg).2.2 :=
        .roomDeleteMessage (h.ownRoom room hcur)
      simp only
      split_ifs
      · rfl
      · split <;> rename_i hresult <;> rw [hresult] at hdelete <;> exact hdelete

theorem handlePm (h : Covers env S w conn command me) :
    Spares S w.reg (handlePm env command conn me w).reg := by
  unfold ChatServer.handlePm
  split
  · rfl
  · split
    · rfl
    · split_ifs
      · rfl
      · split
        · exact .rateLimitCheck h.own ‹_›
        · rename_i hrate
          have hpaid : Spares S w.reg _ := .rateLimitCheck h.own hrate
          split
          · exact hpaid
          · exact hpaid

theorem handleStatus (h : Covers env S w conn command me) :
    Spares S w.reg (handleStatus command conn me w).reg := by
  unfold ChatServer.handleStatus
  split
  · rfl
  · split
    · rfl
    · simp only
      split
      · exact .setClient h.own
      · split_ifs
        · exact .setClient h.own
        · exact .setClient h.own

theorem handleLogout (h : Covers env S w conn command me) :
    Spares S w.reg (handleLogout conn me w).reg :=
  (leaveLastRoom_spares h.ownRoom h.own).trans (.deleteClient h.own)

theorem handleLogoutAll (h : Covers env S w conn command me) :
    Spares S w.reg (handleLogoutAll env conn me w).reg :=
  (leaveLastRoom_spares h.ownRoom h.own).trans (.deleteClient h.own)

theorem handleAccept (ht : command.type = .accept) (h : Covers env S w conn command me) :
    Spares S w.reg (handleAccept env command conn me w).reg := by
  have hleave : Spares S w.reg (acceptLeave me w.reg) := by
    unfold acceptLeave
    split
    · rfl
    · rename_i room hcur
      exact .takeOut (h.ownRoom room hcur) h.own
  unfold ChatServer.handleAccept
  split
  · rfl
  · rename_i n h₁
    simp only
    split_ifs
    · rfl
    · split
      · rfl
      · rename_i r hfound
        have hname : (w.room r).roomName = n := (findRoom_some (Prod.ext rfl hfound)).2
        have hr : S.room r := h.entered r (.inr ht) (by rw [h₁, hname])
        exact (hleave.trans (.roomAddMember hr)).trans (.setCurrentRoom h.own)

theorem handleBan (ht : command.type = .ban) (h : Covers env S w conn command me) :
    Spares S w.reg (handleBan env command conn me w).reg := by
  unfold ChatServer.handleBan
  split
  · rfl
  · rename_i room hcur
    simp only
    split_ifs
    · rfl
    · split
      · rfl
      · rename_i target h₁
        split
        · unfold evictBanned
          split
          · rfl
          · rename_i banned hfound
            split_ifs with hbeside
            · have hname := (findClient_some hfound).2
              have hbanned : S.client banned :=
                h.mate banned room (.inr ht) (by rw [h₁, ← hname]; rfl) hcur hbeside
              exact .takeOut (h.ownRoom room hcur) hbanned
            · rfl
        · rfl

theorem dispatch (h : Covers env S w conn command me) :
    Spares S w.reg (dispatch env command conn me w).reg := by
  unfold ChatServer.dispatch
  cases ht : command.type with
  | invalid => rfl
  | register => exact handleRegister_spares ht h.loggedIn
  | login => exact handleLogin_spares ht h.loggedIn
  | reconnect => exact handleReconnect_spares ht h.loggedIn
  | create => exact h.handleCreate ht
  | join => exact h.handleJoin ht
  | leave => exact h.handleLeave
  | kick => exact h.handleKick ht
  | promote => exact h.handlePromote
  | msg => exact h.handleMsg
  | edit => exact h.handleEdit
  | delete => exact h.handleDelete
  | history => exact .of_eq handleHistory_reg
  | pm => exact h.handlePm
  | rooms => rfl
  | status => exact h.handleStatus
  | who => exact .of_eq handleWho_reg
  | logout => exact h.handleLogout
  | logoutAll => exact h.handleLogoutAll
  | sessions => rfl
  | revokeSession => exact .of_eq handleRevokeSession_reg
  | read => exact .of_eq handleRead_reg
  | typing => exact .of_eq handleTyping_reg
  | stopTyping => exact .of_eq handleStopTyping_reg
  | block => exact .of_eq handleBlock_reg
  | unblock => exact .of_eq handleUnblock_reg
  | mute => exact .of_eq handleMute_reg
  | unmute => exact .of_eq handleUnmute_keeps
  | ban => exact h.handleBan ht
  | demote => exact .of_eq handleDemote_reg
  | createPrivate => exact h.handleCreatePrivate ht
  | invite => exact .of_eq handleInvite_reg
  | accept => exact h.handleAccept ht
  | decline => exact .of_eq handleDecline_reg

end Covers

/-! ## Events -/

/-- One event changes no other rooms and clients than those it touches. -/
theorem step_spares (w : World) (env : Env) (e : Event) :
    Spares (touches env w e) w.reg (step w (env, e)).reg := by
  cases e with
  | accept fd ssl =>
    simp only [step, handleEvent]
    split_ifs <;> rfl
  | line fd text =>
    simp only [step, handleEvent]
    cases hconn : w.conns.get fd with
    | none => rfl
    | some conn =>
      obtain rfl := w.conns.fd_eq _ _ hconn
      simp only [processLine]
      cases hme : conn.me with
      | none =>
        split_ifs
        · rfl
        · rfl
        · exact dispatchAnonymous_spares (w := { w with out := [], broadcasts := [] })
            fun c hc => .loggedIn rfl hconn hc
      | some me =>
        have hacts : Acts w (.line conn.fd text) me :=
          ⟨conn.fd, conn, .inl ⟨text, rfl⟩, hconn, hme⟩
        have hcmd : Commands w (.line conn.fd text) conn me (parseLine text) :=
          ⟨text, rfl, hconn, hme, rfl⟩
        have hcovers : Covers env (touches env w (.line conn.fd text))
            { w with out := [], broadcasts := [] } conn (parseLine text) me :=
          { made := fun r h => .made hcmd h
            ownRoom := fun r hr => .own hacts hr
            entered := fun r ht h₁ => .entered hcmd ht h₁
            loggedIn := fun c h => .loggedIn rfl hconn h
            own := .own hacts
            mate := fun c room ht h₁ hin hbeside => .mate hcmd ht h₁ hin hbeside }
        simp only
        split_ifs
        · rfl
        · rfl
        · exact hcovers.dispatch
  | disconnect fd =>
    simp only [step, handleEvent]
    cases hconn : w.conns.get fd with
    | none => rfl
    | some conn =>
      simp only [disconnectCleanup]
      cases hme : conn.me with
      | none => rfl
      | some me =>
        have hacts : Acts w (.disconnect fd) me := ⟨fd, conn, .inr rfl, hconn, hme⟩
        have hown : (touches env w (.disconnect fd)).client me := .own hacts
        exact (leaveLastRoom_spares (w := { w with out := [], broadcasts := [] })
          (fun r hr => TouchesRoom.own hacts hr) hown).trans (.deleteClient hown)
  | cleanup => rfl
  | shutdown => rfl

theorem room_spared {inputs : List (Env × Event)}
    (h : Along step (fun w input => ¬ TouchesRoom input.1 w input.2 r) w inputs) :
    (run step w inputs).room r = w.room r ∧
      (r ∈ (run step w inputs).reg.roomList ↔ r ∈ w.reg.roomList) := by
  refine run_invariant_along
    (I := fun w' : World => w'.room r = w.room r ∧ (r ∈ w'.reg.roomList ↔ r ∈ w.reg.roomList))
    ?_ ⟨rfl, Iff.rfl⟩ h
  rintro w' ⟨env, e⟩ ⟨hroom, hlive⟩ hout
  obtain ⟨hkept, hlisted⟩ := (step_spares w' env e).rooms r hout
  exact ⟨hkept.trans hroom, hlisted.trans hlive⟩

theorem client_spared {inputs : List (Env × Event)}
    (h : Along step (fun w input => ¬ TouchesClient input.1 w input.2 c) w inputs) :
    (run step w inputs).client c = w.client c ∧
      (c ∈ (run step w inputs).reg.clientList ↔ c ∈ w.reg.clientList) := by
  refine run_invariant_along (I := fun w' : World =>
    w'.client c = w.client c ∧ (c ∈ w'.reg.clientList ↔ c ∈ w.reg.clientList))
    ?_ ⟨rfl, Iff.rfl⟩ h
  rintro w' ⟨env, e⟩ ⟨hclient, hlive⟩ hout
  obtain ⟨hkept, hlisted⟩ := (step_spares w' env e).clients c hout
  exact ⟨hkept.trans hclient, hlisted.trans hlive⟩

theorem Acts.me_eq {fd : Fd} (he : (∃ text, e = .line fd text) ∨ e = .disconnect fd)
    (hconn : w.conns.get fd = some conn) (h : Acts w e me) : conn.me = some me := by
  obtain ⟨fd', conn', he', hconn', hme⟩ := h
  have hfd : fd' = fd := by
    rcases he with ⟨text, rfl⟩ | rfl <;> rcases he' with ⟨text', he'⟩ | he' <;> cases he' <;> rfl
  subst hfd
  exact Option.some.inj (hconn.symm.trans hconn') ▸ hme

/-- Alice is in the lounge and Bob in the den. -/
def twoRooms : World := run step (World.init ⟨4, 4, 4, 10⟩ .empty 0)
  [(.calm 0 0 [], .accept 4 false), (.calm 0 0 [], .accept 5 false),
   (.calm 0 0 "t0".toList, .line 4 "REGISTER alice pw".toList),
   (.calm 0 1 "t1".toList, .line 5 "REGISTER bob pw".toList),
   (.calm 0 0 [], .line 4 "CREATE lounge".toList),
   (.calm 1 0 [], .line 5 "CREATE den".toList)]

def bobGoes : List (Env × Event) :=
  [(.calm 0 0 [], .line 5 "LEAVE".toList), (.calm 0 0 [], .disconnect 5)]

end ChatServer
