import ChatServer.Membership.Kept

/-! # What each command may do to the roster

Every event takes the roster along a path of enabled acts, each of which the
command permits: the refinement of the abstract roster by the server.
-/

namespace ChatServer

open World Roster

/-- The acts a command line may perform, with what it has checked by then. -/
inductive Permits (env : Env) (reg : Registry) (db : Database) (conn : Conn) (command : Cmd) :
    ChatAct → Prop
  | register {c : ClientPtr} {n pw : Text} (ht : command.type = .register)
      (hme : conn.me = none) (h₁ : command.arg1 = some n) (h₂ : command.arg2 = some pw)
      (inserted : (dbRegisterUser env n pw db).1 = .inserted) :
      Permits env reg db conn command (.login conn.fd c n)
  | login {c : ClientPtr} {n pw : Text} (ht : command.type = .login) (hme : conn.me = none)
      (h₁ : command.arg1 = some n) (h₂ : command.arg2 = some pw)
      (verified : dbVerifyUser env n pw db = .ok) :
      Permits env reg db conn command (.login conn.fd c n)
  | reconnect {c : ClientPtr} {n token : Text} (ht : command.type = .reconnect)
      (hme : conn.me = none) (h₁ : command.arg1 = some token)
      (validated : (dbValidateSession env token (dbCleanupExpiredSessions env db).2).1 = .ok n) :
      Permits env reg db conn command (.login conn.fd c n)
  | create {me : ClientPtr} {r : RoomPtr} {n : Text} {cap : ℕ}
      (ht : command.type = .create ∨ command.type = .createPrivate) (hme : conn.me = some me)
      (h₁ : command.arg1 = some n) :
      Permits env reg db conn command (.create r me n cap)
  | created {me : ClientPtr} {r : RoomPtr} {n : Text}
      (ht : command.type = .create ∨ command.type = .createPrivate) (hme : conn.me = some me)
      (h₁ : command.arg1 = some n) (new : r ∉ reg.roomList)
      (made : (createRoom env (some n) (some me) db reg).1 = .ok)
      (out : (reg.clients me).currentRoom = none) (free : 0 < reg.maxMembers) :
      Permits env reg db conn command (.enter me r n)
  | join {me : ClientPtr} {r : RoomPtr} {n : Text} (ht : command.type = .join)
      (hme : conn.me = some me) (h₁ : command.arg1 = some n)
      (found : findRoom (some n) reg = (.ok, some r))
      (seated : ∀ old, (reg.clients me).currentRoom = some old → me ∈ (reg.rooms old).members)
      (free : ((acceptLeave me reg).rooms r).members.length < (reg.rooms r).memberCapacity) :
      Permits env reg db conn command (.enter me r n)
  | accept {me : ClientPtr} {r : RoomPtr} {n : Text} (ht : command.type = .accept)
      (hme : conn.me = some me) (h₁ : command.arg1 = some n)
      (invited : inviteFind env n (reg.clients me).clientName db)
      (found : (findRoom (some n) reg).2 = some r)
      (free : ((acceptLeave me reg).rooms r).members.length < (reg.rooms r).memberCapacity) :
      Permits env reg db conn command (.enter me r n)
  | acceptFull {me : ClientPtr} {r : RoomPtr} {n : Text} (ht : command.type = .accept)
      (hme : conn.me = some me) (h₁ : command.arg1 = some n)
      (invited : inviteFind env n (reg.clients me).clientName db)
      (found : (findRoom (some n) reg).2 = some r)
      (full : (reg.rooms r).memberCapacity ≤ ((acceptLeave me reg).rooms r).members.length) :
      Permits env reg db conn command (.sit me r n)
  | leave {me : ClientPtr} {r : RoomPtr}
      (ht : command.type ∈ [CmdType.join, .leave, .accept, .logout, .logoutAll])
      (hme : conn.me = some me) :
      Permits env reg db conn command (.leave me r)
  | kick {me t : ClientPtr} {r : RoomPtr} {n : Text} (ht : command.type = .kick)
      (hme : conn.me = some me) (h₁ : command.arg1 = some n)
      (admin : (reg.rooms r).adminClient = some me)
      (target : (findClient (some n) reg).2 = some t) :
      Permits env reg db conn command (.leave t r)
  | ban {me t : ClientPtr} {r : RoomPtr} {n : Text} (ht : command.type = .ban)
      (hme : conn.me = some me) (h₁ : command.arg1 = some n)
      (target : (findClient (some n) reg).2 = some t) :
      Permits env reg db conn command (.leave t r)
  | close {r : RoomPtr} (ht : command.type ∈ [CmdType.leave, .kick, .logout, .logoutAll]) :
      Permits env reg db conn command (.close r)
  | logout {me : ClientPtr} (ht : command.type = .logout ∨ command.type = .logoutAll)
      (hme : conn.me = some me) :
      Permits env reg db conn command (.logout conn.fd me)
  | promote {me t : ClientPtr} {r : RoomPtr} {n : Text} (ht : command.type = .promote)
      (hme : conn.me = some me) (admin : (reg.rooms r).adminClient = some me)
      (target : (findClient (some n) reg).2 = some t) :
      Permits env reg db conn command (.promote r t)

variable {env : Env} {w : World} {command : Cmd} {conn : Conn} {me c : ClientPtr} {r : RoomPtr}
  {reg reg' : Registry} {db : Database} {conns : Conns} {n : Text} {P : ChatAct → Prop}

/-! ## Shared steps of the handlers -/

theorem leads_leave (hP : P (.leave c r)) (hc : (reg.clients c).currentRoom = some r) :
    Leads P (rosterOf reg conns)
      (rosterOf ((roomRemoveMember (some r) (some c) reg).2.setCurrentRoom c none) conns) :=
  (Leads.of_eq rfl).act hP hc rosterOf_leave

theorem leads_close (hP : P (.close r)) :
    Leads P (rosterOf reg conns) (rosterOf (roomDeleteIfEmpty r reg) conns) := by
  unfold roomDeleteIfEmpty
  split_ifs with hm
  · simp only [deleteRoom]
    split_ifs with hr
    · exact (Leads.of_eq rfl).act (a := .close r) hP ⟨hr, hm⟩ rfl
    · exact .of_eq rfl
  · exact .of_eq rfl

theorem online_of_conn (hconn : conns.get conn.fd = some conn) (hme : conn.me = some me) :
    (rosterOf reg conns).Online me := ⟨conn.fd, by simp [rosterOf, hconn, hme]⟩

theorem leads_enter (hP : P (.enter c r n)) (hr : r ∈ reg.roomList)
    (hn : (reg.rooms r).roomName = n) (hc : (rosterOf reg conns).Online c)
    (h : roomAddMember (some r) (some c) reg = (.ok, reg')) :
    Leads P (rosterOf reg conns) (rosterOf (reg'.setCurrentRoom c (some r)) conns) := by
  rcases roomAddMember_cases reg r c with
    ⟨he, -⟩ | ⟨he, -⟩ | ⟨he, hloc, hcap⟩
  · rw [he] at h; cases h
  · rw [he] at h; cases h
  · rw [he] at h
    cases h
    exact (Leads.of_eq rfl).act hP ⟨hr, hn, hc, hloc, hcap⟩ rosterOf_enter

theorem roomAddMember_err {err : RoomErr} (he : err ≠ .ok)
    (h : roomAddMember (some r) (some c) reg = (err, reg')) : reg' = reg := by
  rcases roomAddMember_cases reg r c with ⟨h', -⟩ | ⟨h', -⟩ | ⟨h', -⟩
  · rw [h'] at h; cases h; rfl
  · rw [h'] at h; cases h; rfl
  · rw [h'] at h; cases h; exact absurd rfl he

theorem room_of_add (h : roomAddMember (some r) (some c) reg = (.ok, reg')) :
    (reg.clients c).currentRoom = none ∧
      (reg.rooms r).members.length < (reg.rooms r).memberCapacity := by
  rcases roomAddMember_cases reg r c with ⟨h', -⟩ | ⟨h', -⟩ | ⟨-, hout, hfree⟩
  · rw [h'] at h; cases h
  · rw [h'] at h; cases h
  · exact ⟨hout, hfree⟩

theorem roomRemoveMember_err {err : RoomErr} (he : err ≠ .ok)
    (h : roomRemoveMember (some r) (some c) reg = (err, reg')) : reg' = reg := by
  simp only [roomRemoveMember] at h
  split_ifs at h
  · cases h; exact absurd rfl he
  · cases h; rfl

theorem leaveLastRoom_leads (hleave : ∀ r, P (.leave me r)) (hclose : ∀ r, P (.close r)) :
    Leads P w.roster (leaveLastRoom conn me w).roster := by
  unfold leaveLastRoom
  split
  · exact .of_eq rfl
  · exact (leads_leave (hleave _) ‹_›).trans (leads_close (hclose _))

@[simp] theorem leaveLastRoom_conns : (leaveLastRoom conn me w).conns = w.conns := by
  unfold leaveLastRoom
  split <;> rfl

@[simp] theorem leaveLastRoom_db : (leaveLastRoom conn me w).db = w.db := by
  unfold leaveLastRoom
  split <;> rfl

@[simp] theorem roomDeleteIfEmpty_clients : (roomDeleteIfEmpty r reg).clients = reg.clients := by
  unfold roomDeleteIfEmpty
  split_ifs
  · simp only [deleteRoom]
    split_ifs <;> rfl
  · rfl

theorem leaveLastRoom_location : ((leaveLastRoom conn me w).reg.clients me).currentRoom = none := by
  unfold leaveLastRoom
  split
  · assumption
  · simp [World.notice]

/-! ## Logging in and out -/

theorem leads_login {check : Bool} {o : Option ClientPtr}
    (hP : ∀ c, P (.login conn.fd c n)) (hconn : conns.get conn.fd = some conn)
    (hme : conn.me = none) (h : createClientWith env check conn.fd n reg = (.ok, o, reg')) :
    Leads P (rosterOf reg conns) (rosterOf reg' (conns.set { conn with me := o })) := by
  obtain ⟨c, rfl, hc, hn, rfl⟩ := createClientWith_ok h
  exact (Leads.of_eq rfl).act (hP c) ⟨by simp [rosterOf, hconn, hme], hc⟩ (rosterOf_login hn)

@[simp] theorem grantSession_roster {status user : Text} :
    (grantSession env conn status user w).roster = w.roster := by
  unfold grantSession
  split <;> rfl

theorem handleRegister_leads (hconn : w.conns.get conn.fd = some conn)
    (ht : command.type = .register) :
    Leads (Permits env w.reg w.db conn command) w.roster
      (handleRegister env command conn w).roster := by
  unfold handleRegister
  split_ifs with hme
  · exact .of_eq rfl
  · have hme : conn.me = none := not_not.mp hme
    split
    · rename_i n pw h₁ h₂
      split
      · exact .of_eq rfl
      · exact .of_eq rfl
      · rename_i db hdb
        split_ifs
        · exact .of_eq rfl
        · split
          · rename_i hc
            rw [grantSession_roster]
            exact leads_login (fun c => .register ht hme h₁ h₂ (by rw [hdb])) hconn hme hc
          · rename_i hne hc
            obtain ⟨rfl, rfl⟩ := createClientWith_err hne hc
            exact .of_eq (rosterOf_set_same hconn hme)
    · exact .of_eq rfl

theorem leads_replaceClient {o : Option ClientPtr} (hP : ∀ c, P (.login conn.fd c n))
    (hconn : conns.get conn.fd = some conn) (hme : conn.me = none)
    (h : replaceClient env conn.fd n reg = (.ok, o, reg')) :
    Leads P (rosterOf reg conns) (rosterOf reg' (conns.set { conn with me := o })) := by
  rw [replaceClient_eq] at h
  exact leads_login hP hconn hme h

theorem replaceClient_err {err : ClientErr} {o : Option ClientPtr} {fd : Fd} (herr : err ≠ .ok)
    (h : replaceClient env fd n reg = (err, o, reg')) : o = none ∧ reg' = reg := by
  rw [replaceClient_eq] at h
  exact createClientWith_err herr h

theorem handleLogin_leads (hconn : w.conns.get conn.fd = some conn)
    (ht : command.type = .login) :
    Leads (Permits env w.reg w.db conn command) w.roster
      (handleLogin env command conn w).roster := by
  unfold handleLogin
  split_ifs with hme
  · exact .of_eq rfl
  · have hme : conn.me = none := not_not.mp hme
    split
    · rename_i n pw h₁ h₂
      split
      · exact .of_eq rfl
      · exact .of_eq rfl
      · exact .of_eq rfl
      · rename_i hdb
        split
        · rename_i hc
          rw [grantSession_roster]
          exact leads_replaceClient (fun c => .login ht hme h₁ h₂ hdb) hconn hme hc
        · rename_i hne hc
          obtain ⟨-, rfl⟩ := replaceClient_err hne hc
          exact .of_eq (rosterOf_set_same hconn hme)
    · exact .of_eq rfl

theorem handleReconnect_leads (hconn : w.conns.get conn.fd = some conn)
    (ht : command.type = .reconnect) :
    Leads (Permits env w.reg w.db conn command) w.roster
      (handleReconnect env command conn w).roster := by
  unfold handleReconnect
  split_ifs with hme
  · exact .of_eq rfl
  · have hme : conn.me = none := not_not.mp hme
    split
    · exact .of_eq rfl
    · rename_i token h₁
      split
      · exact .of_eq rfl
      · exact .of_eq rfl
      · exact .of_eq rfl
      · rename_i n db hdb
        split_ifs
        · exact .of_eq rfl
        · split
          · rename_i hc
            rw [grantSession_roster]
            exact leads_replaceClient (fun c => .reconnect ht hme h₁ (by rw [hdb])) hconn hme hc
          · rename_i hne hc
            obtain ⟨-, rfl⟩ := replaceClient_err hne hc
            exact .of_eq (rosterOf_set_same hconn hme)

theorem leads_logout (hconn : w.conns.get conn.fd = some conn) (hme : conn.me = some me)
    (hleave : ∀ r, P (.leave me r)) (hclose : ∀ r, P (.close r))
    (hlogout : P (.logout conn.fd me)) :
    Leads P w.roster (rosterOf (deleteClient (some me) (leaveLastRoom conn me w).reg).2
      ((leaveLastRoom conn me w).conns.set { conn with me := none })) :=
  (leaveLastRoom_leads hleave hclose).act hlogout
    ⟨by simp [World.roster, rosterOf, hconn, hme], leaveLastRoom_location⟩ rosterOf_logout

theorem handleLogout_leads (hconn : w.conns.get conn.fd = some conn) (hme : conn.me = some me)
    (ht : command.type = .logout) :
    Leads (Permits env w.reg w.db conn command) w.roster (handleLogout conn me w).roster :=
  leads_logout hconn hme (fun _ => .leave (by simp [ht]) hme) (fun _ => .close (by simp [ht]))
    (.logout (.inl ht) hme)

theorem handleLogoutAll_leads (hconn : w.conns.get conn.fd = some conn) (hme : conn.me = some me)
    (ht : command.type = .logoutAll) :
    Leads (Permits env w.reg w.db conn command) w.roster (handleLogoutAll env conn me w).roster :=
  leads_logout hconn hme (fun _ => .leave (by simp [ht]) hme) (fun _ => .close (by simp [ht]))
    (.logout (.inr ht) hme)

/-! ## Rooms -/

theorem leads_createRoom (hconn : w.conns.get conn.fd = some conn) (hme : conn.me = some me)
    (ht : command.type = .create ∨ command.type = .createPrivate) {room : Option RoomPtr}
    (h₁ : command.arg1 = some n)
    (h : createRoom env (some n) (some me) w.db w.reg = (.ok, room, reg)) :
    Leads (Permits env w.reg w.db conn command) w.roster (rosterOf reg w.conns) ∧
      ∀ {reg'}, roomAddMember room (some me) reg = (.ok, reg') →
        Leads (Permits env w.reg w.db conn command) w.roster
          (rosterOf (reg'.setCurrentRoom me room) w.conns) := by
  obtain ⟨r, rfl, hr, hnames, hn, rfl⟩ := createRoom_ok h
  have hcreate : Leads (Permits env w.reg w.db conn command) w.roster
      (rosterOf { w.reg.setRoom r (newRoom env n me w.reg w.db) with
        roomList := w.reg.roomList ++ [r] } w.conns) :=
    (Leads.of_eq rfl).act (a := .create r me n w.reg.maxMembers) (.create ht hme h₁)
      ⟨hr, hnames, online_of_conn hconn hme⟩ (rosterOf_create hn)
  refine ⟨hcreate, fun hadd => hcreate.trans ?_⟩
  obtain ⟨hout, hfree⟩ := room_of_add hadd
  refine leads_enter (.created ht hme h₁ hr (by rw [h]) hout ?_) (by simp) ?_
    (online_of_conn hconn hme) hadd
  · simpa [newRoom] using hfree
  · simp [newRoom, strncpy_of_not_badLength hn]

theorem createRoom_add_err {room : Option RoomPtr} {err : RoomErr} (he : err ≠ .ok)
    (h : createRoom env (some n) (some c) db reg = (.ok, room, reg'))
    {reg'' : Registry} (hadd : roomAddMember room (some me) reg' = (err, reg'')) :
    reg'' = reg' := by
  obtain ⟨r, rfl, -⟩ := createRoom_ok h
  exact roomAddMember_err he hadd

theorem handleCreate_leads (hconn : w.conns.get conn.fd = some conn) (hme : conn.me = some me)
    (ht : command.type = .create) :
    Leads (Permits env w.reg w.db conn command) w.roster
      (handleCreate env command conn me w).roster := by
  unfold handleCreate
  split
  · exact .of_eq rfl
  · rename_i n h₁
    split
    · rename_i hcreate
      obtain ⟨hroom, henter⟩ := leads_createRoom hconn hme (.inl ht) h₁ hcreate
      split
      · exact henter ‹_›
      · rename_i hne hadd
        obtain rfl := createRoom_add_err hne hcreate hadd
        exact hroom
    · rename_i hne hcreate
      obtain rfl := createRoom_err hne hcreate
      exact .of_eq rfl

theorem handleCreatePrivate_leads (hconn : w.conns.get conn.fd = some conn)
    (hme : conn.me = some me) (ht : command.type = .createPrivate) :
    Leads (Permits env w.reg w.db conn command) w.roster
      (handleCreatePrivate env command conn me w).roster := by
  unfold handleCreatePrivate
  split
  · exact .of_eq rfl
  · rename_i n h₁
    split
    · rename_i hcreate
      obtain ⟨hroom, henter⟩ := leads_createRoom hconn hme (.inr ht) h₁ hcreate
      split
      · exact henter ‹_›
      · rename_i hne hadd
        obtain rfl := createRoom_add_err hne hcreate hadd
        exact hroom
    · rename_i hcreate
      obtain rfl := createRoom_err (by simp) hcreate
      exact .of_eq rfl
    · rename_i hne _ hcreate
      obtain rfl := createRoom_err hne hcreate
      exact .of_eq rfl

theorem acceptLeave_leads (hP : ∀ r, P (.leave me r)) :
    Leads P (rosterOf reg conns) (rosterOf (acceptLeave me reg) conns) := by
  unfold acceptLeave
  split
  · exact .of_eq rfl
  · exact leads_leave (hP _) ‹_›

theorem acceptLeave_location : ((acceptLeave me reg).clients me).currentRoom = none := by
  unfold acceptLeave
  split
  · assumption
  · simp

section AcceptLeave

variable (reg : Registry) (me : ClientPtr) (r : RoomPtr)

@[simp] theorem acceptLeave_roomList : (acceptLeave me reg).roomList = reg.roomList := by
  unfold acceptLeave
  split
  · rfl
  · simp [roomRemoveMember_snd]

theorem acceptLeave_room : (acceptLeave me reg).rooms r =
    { reg.rooms r with
      members :=
        if (reg.clients me).currentRoom = some r then (reg.rooms r).members.erase me
        else (reg.rooms r).members } := by
  unfold acceptLeave
  split
  · simp_all
  · rename_i old hold
    rw [roomRemoveMember_snd]
    rcases eq_or_ne r old with rfl | hne
    · simp [hold]
    · simp [hold, hne, hne.symm]

@[simp] theorem acceptLeave_roomName :
    ((acceptLeave me reg).rooms r).roomName = (reg.rooms r).roomName := by
  rw [acceptLeave_room]

@[simp] theorem acceptLeave_memberCapacity :
    ((acceptLeave me reg).rooms r).memberCapacity = (reg.rooms r).memberCapacity := by
  rw [acceptLeave_room]

end AcceptLeave

theorem findRoom_congr {o : Option Text} (hlist : reg'.roomList = reg.roomList)
    (hname : ∀ r, (reg'.rooms r).roomName = (reg.rooms r).roomName) :
    findRoom o reg' = findRoom o reg := by
  cases o with
  | none => rfl
  | some n => simp only [findRoom, hlist, hname]

theorem findRoom_acceptLeave {o : Option Text} : findRoom o (acceptLeave me reg) = findRoom o reg :=
  findRoom_congr (acceptLeave_roomList reg me) (acceptLeave_roomName reg me)

theorem joinLeave_of_seated (conn : Conn)
    (h : ∀ old, (w.client me).currentRoom = some old → me ∈ (w.room old).members) :
    joinLeave conn me w = { w with reg := acceptLeave me w.reg } := by
  cases hcur : (w.client me).currentRoom with
  | none =>
    have hcur' : (w.reg.clients me).currentRoom = none := hcur
    simp [joinLeave, acceptLeave, hcur, hcur']
  | some old =>
    have hcur' : (w.reg.clients me).currentRoom = some old := hcur
    have hm : me ∈ (w.reg.rooms old).members := h old hcur
    simp [joinLeave, acceptLeave, hcur, hcur', roomRemoveMember, hm]

theorem joinLeave_of_not_seated (conn : Conn)
    (h : ¬ ∀ old, (w.client me).currentRoom = some old → me ∈ (w.room old).members) :
    (joinLeave conn me w).reg = w.reg ∧ (w.client me).currentRoom ≠ none := by
  simp only [not_forall] at h
  obtain ⟨old, hcur, hm⟩ := h
  have hm : me ∉ (w.reg.rooms old).members := hm
  simp [joinLeave, hcur, roomRemoveMember, hm]

theorem joinLeave_out (h : ((joinLeave conn me w).reg.clients me).currentRoom = none) :
    (∀ old, (w.client me).currentRoom = some old → me ∈ (w.room old).members) ∧
      (joinLeave conn me w).reg = acceptLeave me w.reg := by
  by_cases hseated : ∀ old, (w.client me).currentRoom = some old → me ∈ (w.room old).members
  · exact ⟨hseated, by rw [joinLeave_of_seated conn hseated]⟩
  · obtain ⟨hreg, hcur⟩ := joinLeave_of_not_seated conn hseated
    rw [hreg] at h
    exact absurd h hcur

/-- If JOIN enters a room, the leave before succeeded, and the room was there and had a place. -/
theorem joinLeave_add {o : Option Text}
    (hfind : findRoom o (joinLeave conn me w).reg = (.ok, some r))
    (hadd : roomAddMember (some r) (some me) (joinLeave conn me w).reg = (.ok, reg)) :
    (∀ old, (w.client me).currentRoom = some old → me ∈ (w.room old).members) ∧
      findRoom o w.reg = (.ok, some r) ∧
      ((acceptLeave me w.reg).rooms r).members.length < (w.room r).memberCapacity := by
  obtain ⟨hout, hfree⟩ := room_of_add hadd
  obtain ⟨hseated, hreg⟩ := joinLeave_out hout
  rw [hreg, findRoom_acceptLeave] at hfind
  rw [hreg, acceptLeave_memberCapacity] at hfree
  exact ⟨hseated, hfind, hfree⟩

theorem joinLeave_leads (hP : ∀ r, P (.leave me r)) :
    Leads P w.roster (joinLeave conn me w).roster := by
  unfold joinLeave
  split
  · exact .of_eq rfl
  · rename_i r hr
    split
    · rename_i h
      have hleave : Leads P w.roster _ := leads_leave (hP r) hr
      rwa [h] at hleave
    · rename_i hne h
      obtain rfl := roomRemoveMember_err hne h
      exact .of_eq rfl

@[simp] theorem joinLeave_conns : (joinLeave conn me w).conns = w.conns := by
  unfold joinLeave
  split
  · rfl
  · split <;> rfl

theorem handleJoin_leads (hconn : w.conns.get conn.fd = some conn) (hme : conn.me = some me)
    (ht : command.type = .join) :
    Leads (Permits env w.reg w.db conn command) w.roster (handleJoin command conn me w).roster := by
  unfold handleJoin
  split
  · exact .of_eq rfl
  · rename_i n h₁
    have hleave : Leads (Permits env w.reg w.db conn command) w.roster
        (joinLeave conn me w).roster := joinLeave_leads fun _ => .leave (by simp [ht]) hme
    have hconn' : (joinLeave conn me w).conns.get conn.fd = some conn := by simpa using hconn
    refine hleave.trans ?_
    simp only
    split
    · rename_i hfind
      obtain ⟨hr, hn⟩ := findRoom_some hfind
      split
      · rename_i hadd
        obtain ⟨hseated, hfound, hfree⟩ := joinLeave_add hfind hadd
        exact leads_enter (.join ht hme h₁ hfound hseated hfree) hr hn
          (online_of_conn hconn' hme) hadd
      · rename_i hne hadd
        obtain rfl := roomAddMember_err hne hadd
        exact .of_eq rfl
    · exact .of_eq rfl

theorem handleLeave_leads (hme : conn.me = some me) (ht : command.type = .leave) :
    Leads (Permits env w.reg w.db conn command) w.roster (handleLeave conn me w).roster := by
  unfold handleLeave
  split
  · exact .of_eq rfl
  · rename_i r hr
    have hleave : Leads (Permits env w.reg w.db conn command) w.roster _ :=
      leads_leave (.leave (by simp [ht]) hme) hr
    split
    · rename_i h
      rw [h] at hleave
      exact hleave.trans (leads_close (.close (by simp [ht])))
    · rename_i hne h
      obtain rfl := roomRemoveMember_err hne h
      exact .of_eq rfl

theorem handleKick_leads (hme : conn.me = some me) (ht : command.type = .kick) :
    Leads (Permits env w.reg w.db conn command) w.roster
      (handleKick command conn me w).roster := by
  unfold handleKick
  split
  · exact .of_eq rfl
  · rename_i r hr
    split_ifs with hadmin
    · exact .of_eq rfl
    · split
      · exact .of_eq rfl
      · rename_i n h₁
        split_ifs
        · exact .of_eq rfl
        · split
          · exact .of_eq rfl
          · rename_i target htarget
            split_ifs with hin
            · exact .of_eq rfl
            · have hleave : Leads (Permits env w.reg w.db conn command) w.roster _ :=
                leads_leave (.kick ht hme h₁ (not_not.mp hadmin) htarget) (not_not.mp hin)
              split
              · rename_i h
                rw [h] at hleave
                exact hleave.trans (leads_close (.close (by simp [ht])))
              · rename_i hne h
                obtain rfl := roomRemoveMember_err hne h
                exact .of_eq rfl

theorem handlePromote_leads (hme : conn.me = some me) (ht : command.type = .promote) :
    Leads (Permits env w.reg w.db conn command) w.roster
      (handlePromote command conn me w).roster := by
  unfold handlePromote
  split
  · exact .of_eq rfl
  · rename_i r hr
    split_ifs with hadmin
    · exact .of_eq rfl
    · split
      · exact .of_eq rfl
      · split
        · exact .of_eq rfl
        · rename_i target htarget
          split_ifs with hin
          · exact .of_eq rfl
          · exact (Leads.of_eq rfl).act (.promote ht hme (not_not.mp hadmin) htarget)
              ⟨(findClient_some htarget).1, not_not.mp hin⟩ rosterOf_promote

theorem handleAccept_leads (hconn : w.conns.get conn.fd = some conn) (hme : conn.me = some me)
    (ht : command.type = .accept) :
    Leads (Permits env w.reg w.db conn command) w.roster
      (handleAccept env command conn me w).roster := by
  unfold handleAccept
  split
  · exact .of_eq rfl
  · rename_i n h₁
    simp only
    split_ifs with hfind
    · exact .of_eq rfl
    · have hinv : inviteFind env n (w.reg.clients me).clientName w.db := by
        simpa [World.client] using hfind
      split
      · exact .of_eq rfl
      · rename_i r hroom
        have hleave : Leads (Permits env w.reg w.db conn command) w.roster
            (rosterOf (acceptLeave me w.reg) w.conns) :=
          acceptLeave_leads fun _ => .leave (by simp [ht]) hme
        obtain ⟨hr, hn⟩ := findRoom_some (Prod.ext rfl hroom)
        rw [← acceptLeave_roomList w.reg me] at hr
        rw [← acceptLeave_roomName w.reg me] at hn
        have hon : (rosterOf (acceptLeave me w.reg) w.conns).Online me := online_of_conn hconn hme
        refine hleave.trans ?_
        rcases roomAddMember_cases (acceptLeave me w.reg) r me with
          ⟨-, hloc⟩ | ⟨he, hloc, hfull⟩ | ⟨he, -⟩
        · exact absurd acceptLeave_location hloc
        · rw [he]
          refine (Leads.of_eq rfl).act (.acceptFull ht hme h₁ hinv hroom ?_)
            ⟨hr, hn, hon, hloc, hfull⟩ rosterOf_sit
          rwa [acceptLeave_memberCapacity] at hfull
        · rw [he]
          have hfree := (room_of_add he).2
          rw [acceptLeave_memberCapacity] at hfree
          exact leads_enter (.accept ht hme h₁ hinv hroom hfree) hr hn hon he

theorem handleBan_leads (hme : conn.me = some me) (ht : command.type = .ban) :
    Leads (Permits env w.reg w.db conn command) w.roster
      (handleBan env command conn me w).roster := by
  unfold handleBan
  split
  · exact .of_eq rfl
  · rename_i r hr
    simp only
    split_ifs
    · exact .of_eq rfl
    · split
      · exact .of_eq rfl
      · rename_i n h₁
        split
        · unfold evictBanned
          split
          · exact .of_eq rfl
          · rename_i target htarget
            split_ifs with hin
            · exact leads_leave (.ban ht hme h₁ htarget) hin
            · exact .of_eq rfl
        · exact .of_eq rfl

/-! ## Events -/

theorem processLine_leads {text : Text} (hconn : w.conns.get conn.fd = some conn) :
    Leads (Permits env w.reg w.db conn (parseLine text)) w.roster
      (processLine env conn text w).1.roster := by
  unfold processLine
  simp only
  split_ifs
  · exact .of_eq rfl
  · exact .of_eq rfl
  · split
    · unfold dispatchAnonymous
      split
      · exact handleRegister_leads hconn ‹_›
      · exact handleLogin_leads hconn ‹_›
      · exact handleReconnect_leads hconn ‹_›
      · exact .of_eq rfl
    · rename_i me hme
      unfold dispatch
      split
      · exact .of_eq rfl
      · exact handleRegister_leads hconn ‹_›
      · exact handleLogin_leads hconn ‹_›
      · exact handleReconnect_leads hconn ‹_›
      · exact handleCreate_leads hconn hme ‹_›
      · exact handleJoin_leads hconn hme ‹_›
      · exact handleLeave_leads hme ‹_›
      · exact handleKick_leads hme ‹_›
      · exact handlePromote_leads hme ‹_›
      · exact .of_eq handleMsg_roster
      · exact .of_eq handleEdit_roster
      · exact .of_eq handleDelete_roster
      · exact .of_eq handleHistory_roster
      · exact .of_eq handlePm_roster
      · exact .of_eq handleRooms_roster
      · exact .of_eq handleStatus_roster
      · exact .of_eq handleWho_roster
      · exact handleLogout_leads hconn hme ‹_›
      · exact handleLogoutAll_leads hconn hme ‹_›
      · exact .of_eq handleSessions_roster
      · exact .of_eq handleRevokeSession_roster
      · exact .of_eq handleRead_roster
      · exact .of_eq handleTyping_roster
      · exact .of_eq handleStopTyping_roster
      · exact .of_eq handleBlock_roster
      · exact .of_eq handleUnblock_roster
      · exact .of_eq handleMute_roster
      · exact .of_eq handleUnmute_roster
      · exact handleBan_leads hme ‹_›
      · exact .of_eq handleDemote_roster
      · exact handleCreatePrivate_leads hconn hme ‹_›
      · exact .of_eq handleInvite_roster
      · exact handleAccept_leads hconn hme ‹_›
      · exact .of_eq handleDecline_roster

/-- The acts an event may perform. -/
inductive Does (env : Env) (w : World) : Event → ChatAct → Prop
  | connect {fd : Fd} {ssl : Bool} : Does env w (.accept fd ssl) (.connect fd)
  | command {fd : Fd} {text : Text} {conn : Conn} {a : ChatAct} (hconn : w.conns.get fd = some conn)
      (h : Permits env w.reg w.db conn (parseLine text) a) : Does env w (.line fd text) a
  | dropLeave {fd : Fd} {conn : Conn} {me : ClientPtr} {r : RoomPtr}
      (hconn : w.conns.get fd = some conn) (hme : conn.me = some me) :
      Does env w (.disconnect fd) (.leave me r)
  | dropClose {fd : Fd} {r : RoomPtr} : Does env w (.disconnect fd) (.close r)
  | dropLogout {fd : Fd} {me : ClientPtr} : Does env w (.disconnect fd) (.logout fd me)
  | hangup {fd : Fd} : Does env w (.disconnect fd) (.hangup fd)

theorem disconnectCleanup_leads {fd : Fd} (hconn : w.conns.get fd = some conn) :
    Leads (Does env w (.disconnect fd)) w.roster (disconnectCleanup conn w).roster := by
  obtain rfl := w.conns.fd_eq _ _ hconn
  unfold disconnectCleanup
  simp only
  split
  · rename_i hme
    refine (Leads.of_eq rfl).act .hangup ?_ rosterOf_hangup
    simp [World.roster, rosterOf, Enabled, hconn, hme]
  · rename_i me hme
    have hleave : Leads (Does env w (.disconnect conn.fd)) w.roster
        (leaveLastRoom conn me w).roster :=
      leaveLastRoom_leads (fun _ => .dropLeave hconn hme) fun _ => .dropClose
    have hlogout := hleave.act (a := .logout conn.fd me) .dropLogout
      ⟨by simp [World.roster, rosterOf, hconn, hme], leaveLastRoom_location⟩ rfl
    refine hlogout.act .hangup ?_ rosterOf_logout_hangup
    simp [Enabled, Roster.apply]

/-- The server refines the roster: an event is a path of enabled acts it may perform. -/
theorem step_leads (w : World) (env : Env) (e : Event) :
    Leads (Does env w e) w.roster (step w (env, e)).roster := by
  cases e with
  | accept fd ssl =>
    simp only [step, handleEvent]
    by_cases h : fd < 0 ∨ w.conns.get fd ≠ none
    · rw [if_pos h]
      exact .of_eq rfl
    · rw [if_neg h]
      have hfd : w.conns.get fd = none := not_not.mp (not_or.mp h).2
      refine (Leads.of_eq rfl).act .connect ?_ rosterOf_connect
      simp [World.roster, rosterOf, Enabled, hfd]
  | line fd text =>
    simp only [step, handleEvent]
    split
    · exact .of_eq rfl
    · rename_i conn hconn
      obtain rfl := w.conns.fd_eq _ _ hconn
      exact (processLine_leads (w := { w with out := [], broadcasts := [] }) hconn).mono fun _ ha =>
        .command hconn ha
  | disconnect fd =>
    simp only [step, handleEvent]
    split
    · exact .of_eq rfl
    · rename_i conn hconn
      have hdoes : Leads (Does env { w with out := [], broadcasts := [] } (.disconnect fd)) w.roster
          _ :=
        disconnectCleanup_leads hconn
      refine hdoes.mono fun a ha => ?_
      cases ha with
      | dropLeave h₁ h₂ => exact .dropLeave h₁ h₂
      | dropClose => exact .dropClose
      | dropLogout => exact .dropLogout
      | hangup => exact .hangup
  | cleanup => exact .of_eq rfl
  | shutdown => exact .of_eq rfl

/-- The invariants of the roster hold in every reachable state. -/
theorem run_sound {cfg : Config} {start : ℤ} {inputs : List (Env × Event)} :
    (Library.run step (World.init cfg db start) inputs).roster.Sound :=
  Library.run_invariant (I := fun w => w.roster.Sound)
    (fun w input h => (step_leads w input.1 input.2).sound h)
    (roster_init cfg db start).sound inputs

end ChatServer
