import ChatServer.Membership.Roster
import ChatServer.Server.Dispatch

/-! # The roster of a server state

The roster a registry and its connections stand for, and what each registry
operation does to it.
-/

namespace ChatServer

open Library

abbrev ChatRoster := Roster RoomPtr ClientPtr Text Fd

abbrev ChatAct := Roster.Act RoomPtr ClientPtr Text Fd

def rosterOf (reg : Registry) (conns : Conns) : ChatRoster where
  rooms := reg.roomList
  clients := reg.clientList
  conns := fun fd => (conns.get fd).map Conn.me
  members := fun r => (reg.rooms r).members
  capacity := fun r => (reg.rooms r).memberCapacity
  admin := fun r => (reg.rooms r).adminClient
  title := fun r => (reg.rooms r).roomName
  location := fun c => (reg.clients c).currentRoom
  name := fun c => (reg.clients c).clientName
  address := fun c => (reg.clients c).socketFd

def World.roster (w : World) : ChatRoster := rosterOf w.reg w.conns

theorem roster_init (cfg : Config) (db : Database) (start : ℤ) :
    (World.init cfg db start).roster.Start := ⟨rfl, rfl, fun _ => rfl⟩

section Update

variable {ι α β : Type*} [DecidableEq ι]

theorem update_proj (f : α → β) (g : ι → α) (i : ι) (a : α) :
    (fun j => f (Function.update g i a j)) = Function.update (fun j => f (g j)) i (f a) :=
  Function.comp_update f g i a

end Update

variable {env : Env} {reg reg' : Registry} {db : Database} {conns : Conns} {conn : Conn}
  {r : RoomPtr} {c : ClientPtr} {n : Text} {P : ChatAct → Prop}

theorem roster_conns_eq_some {w : World} {fd : Fd} : w.roster.conns fd = some (some c) ↔
    ∃ conn, w.conns.get fd = some conn ∧ conn.me = some c := by
  simp [World.roster, rosterOf]

theorem mem_broadcastFds {fd fd' : Fd} : fd' ∈ broadcastFds r fd reg ↔
    fd' ≠ fd ∧ ∃ c ∈ (reg.rooms r).members, (reg.clients c).socketFd = fd' := by
  simp [broadcastFds, and_comm]

theorem findRoom_some {err : RoomErr} (h : findRoom (some n) reg = (err, some r)) :
    r ∈ reg.roomList ∧ (reg.rooms r).roomName = n := by
  simp only [findRoom] at h
  split_ifs at h
  · cases h
  · cases hf : reg.roomList.find? (fun r => decide ((reg.rooms r).roomName = n)) with
    | none => rw [hf] at h; cases h
    | some r' =>
      rw [hf] at h
      cases h
      exact ⟨List.mem_of_find?_eq_some hf, by simpa using List.find?_some hf⟩

theorem exists_name_of_findRoom {o : Option Text} {err : RoomErr}
    (h : findRoom o reg = (err, some r)) : ∃ n, o = some n := by
  cases o with
  | none => cases h
  | some n => exact ⟨n, rfl⟩

theorem findClient_some (h : (findClient (some n) reg).2 = some c) :
    c ∈ reg.clientList ∧ (reg.clients c).clientName = n := by
  simp only [findClient] at h
  cases hf : reg.clientList.find? (fun c => decide ((reg.clients c).clientName = n)) with
  | none => rw [hf] at h; cases h
  | some c' =>
    rw [hf] at h
    cases h
    exact ⟨List.mem_of_find?_eq_some hf, by simpa using List.find?_some hf⟩

theorem findRoom_cases (o : Option Text) (reg : Registry) :
    (∃ r, findRoom o reg = (.ok, some r)) ∨ findRoom o reg = (.invalidName, none) ∨
      findRoom o reg = (.notFound, none) := by
  unfold findRoom
  split
  · exact .inr (.inl rfl)
  · split_ifs
    · exact .inr (.inl rfl)
    · split
      · exact .inl ⟨_, rfl⟩
      · exact .inr (.inr rfl)

theorem findRoom_none (h : (findRoom (some n) reg).2 = none)
    (hn : badLength maxRoomNameLen n = false) :
    ∀ r ∈ reg.roomList, (reg.rooms r).roomName ≠ n := by
  simp only [findRoom, hn, Bool.false_eq_true, if_false] at h
  cases hf : reg.roomList.find? (fun r => decide ((reg.rooms r).roomName = n)) with
  | none => simpa using hf
  | some r' => rw [hf] at h; cases h

theorem strncpy_of_not_badLength {size : ℕ} (hn : badLength size n = false) :
    strncpy size n = n := by
  refine strncpy_eq_self ?_
  simp only [badLength, decide_eq_false_iff_not, not_or, not_le] at hn
  exact hn.2

theorem createRoom_ok {o : Option RoomPtr}
    (h : createRoom env (some n) (some c) db reg = (.ok, o, reg')) :
    ∃ r, o = some r ∧ r ∉ reg.roomList ∧ (∀ r' ∈ reg.roomList, (reg.rooms r').roomName ≠ n) ∧
      badLength maxRoomNameLen n = false ∧
      reg' = { reg.setRoom r (newRoom env n c reg db) with roomList := reg.roomList ++ [r] } := by
  simp only [createRoom] at h
  split_ifs at h with hn hcap hdup
  · cases h
  · cases h
  · cases h
  · have hn' : badLength maxRoomNameLen n = false := by simpa using hn
    cases hm : env.roomMem with
    | none => rw [hm] at h; cases h
    | some r =>
      rw [hm] at h
      simp only at h
      split_ifs at h with hr
      · cases h
      · cases h
        exact ⟨r, rfl, hr, findRoom_none (by simpa using hdup) hn', hn', rfl⟩

theorem createRoom_err {err : RoomErr} {o : Option RoomPtr} (he : err ≠ .ok)
    (h : createRoom env (some n) (some c) db reg = (err, o, reg')) : reg' = reg := by
  simp only [createRoom] at h
  split_ifs at h
  · cases h; rfl
  · cases h; rfl
  · cases h; rfl
  · cases hm : env.roomMem with
    | none => rw [hm] at h; cases h; rfl
    | some r =>
      rw [hm] at h
      simp only at h
      split_ifs at h
      · cases h; rfl
      · cases h; exact absurd rfl he

/-- `create_room` finds a good name that no room has, a free slot and memory. -/
structure Creatable (env : Env) (n : Text) (reg : Registry) : Prop where
  name : badLength maxRoomNameLen n = false
  slot : reg.roomList.length < reg.roomCapacity
  fresh : ∀ r ∈ reg.roomList, (reg.rooms r).roomName ≠ n
  memory : ∃ r, env.roomMem = some r ∧ r ∉ reg.roomList

theorem createRoom_cases (env : Env) (n : Text) (me : ClientPtr) (db : Database) (reg : Registry) :
    (Creatable env n reg ∧ ∃ r, createRoom env (some n) (some me) db reg = (.ok, some r,
      { reg.setRoom r (newRoom env n me reg db) with roomList := reg.roomList ++ [r] })) ∨
    (¬ Creatable env n reg ∧ ∃ err, err ≠ .ok ∧
      createRoom env (some n) (some me) db reg = (err, none, reg)) := by
  simp only [createRoom]
  split_ifs with hname hslot hfound
  · exact .inr ⟨fun h => by simp [h.name] at hname, _, by simp, rfl⟩
  · exact .inr ⟨fun h => absurd h.slot (not_lt.mpr hslot), _, by simp, rfl⟩
  · refine .inr ⟨fun h => ?_, _, by simp, rfl⟩
    obtain ⟨r, hr⟩ := Option.isSome_iff_exists.mp hfound
    obtain ⟨hmem, heq⟩ := findRoom_some (Prod.ext rfl hr)
    exact h.fresh r hmem heq
  · have hname : badLength maxRoomNameLen n = false := by simpa using hname
    split
    · rename_i hmem
      exact .inr ⟨fun h => by simpa [hmem] using h.memory, _, by simp, rfl⟩
    · rename_i r hmem
      split_ifs with hin
      · refine .inr ⟨fun h => ?_, _, by simp, rfl⟩
        obtain ⟨r', hr', hout⟩ := h.memory
        rw [hmem] at hr'
        exact hout (Option.some.inj hr' ▸ hin)
      · exact .inl ⟨⟨hname, not_le.mp hslot, findRoom_none (by simpa using hfound) hname, r, hmem,
          hin⟩, r, rfl⟩

theorem roomAddMember_cases (reg : Registry) (r : RoomPtr) (c : ClientPtr) :
    (roomAddMember (some r) (some c) reg = (.alreadyInARoom, reg) ∧
      (reg.clients c).currentRoom ≠ none) ∨
    (roomAddMember (some r) (some c) reg = (.maxMembers, reg) ∧
      (reg.clients c).currentRoom = none ∧
      (reg.rooms r).memberCapacity ≤ (reg.rooms r).members.length) ∨
    (roomAddMember (some r) (some c) reg =
        (.ok, reg.modifyRoom r fun room => { room with members := room.members ++ [c] }) ∧
      (reg.clients c).currentRoom = none ∧
      (reg.rooms r).members.length < (reg.rooms r).memberCapacity) := by
  simp only [roomAddMember]
  split_ifs with hloc hcap
  · exact .inl ⟨rfl, hloc⟩
  · exact .inr (.inl ⟨rfl, not_not.mp hloc, hcap⟩)
  · exact .inr (.inr ⟨rfl, not_not.mp hloc, not_le.mp hcap⟩)

theorem roomRemoveMember_snd : (roomRemoveMember (some r) (some c) reg).2 =
    reg.modifyRoom r fun room => { room with members := room.members.erase c } := by
  simp only [roomRemoveMember]
  split_ifs with h
  · rfl
  · simp [Registry.setRoom, List.erase_of_not_mem h]

theorem createClientWith_ok {check : Bool} {fd : Fd} {o : Option ClientPtr}
    (h : createClientWith env check fd n reg = (.ok, o, reg')) :
    ∃ c, o = some c ∧ c ∉ reg.clientList ∧ badLength maxUsernameLen n = false ∧
      reg' = { reg.setClient c (newClient env fd n) with clientList := reg.clientList ++ [c] } := by
  unfold createClientWith at h
  split_ifs at h with hn
  · cases h
  · cases h
  · cases h
  · have hn' : badLength maxUsernameLen n = false := by simpa using hn
    cases hm : env.clientMem with
    | none => rw [hm] at h; cases h
    | some c =>
      rw [hm] at h
      simp only at h
      split_ifs at h with hc
      · cases h
      · cases h
        exact ⟨c, rfl, hc, hn', rfl⟩

theorem createClientWith_err {check : Bool} {fd : Fd} {o : Option ClientPtr} {err : ClientErr}
    (he : err ≠ .ok) (h : createClientWith env check fd n reg = (err, o, reg')) :
    o = none ∧ reg' = reg := by
  unfold createClientWith at h
  split_ifs at h
  · cases h; exact ⟨rfl, rfl⟩
  · cases h; exact ⟨rfl, rfl⟩
  · cases h; exact ⟨rfl, rfl⟩
  · cases hm : env.clientMem with
    | none => rw [hm] at h; cases h; exact ⟨rfl, rfl⟩
    | some c =>
      rw [hm] at h
      simp only at h
      split_ifs at h
      · cases h; exact ⟨rfl, rfl⟩
      · cases h; exact absurd rfl he

theorem replaceClient_eq (fd : Fd) : replaceClient env fd n reg =
    createClientWith env (!(findClient (some n) reg).2.isSome) fd n reg := by
  unfold replaceClient
  split_ifs with h
  · rw [h]; rfl
  · rw [Bool.not_eq_true] at h
    rw [h]; rfl

theorem rosterOf_setRoom {room : Room} : rosterOf (reg.setRoom r room) conns =
    { rosterOf reg conns with
      members := Function.update (fun r => (reg.rooms r).members) r room.members
      capacity := Function.update (fun r => (reg.rooms r).memberCapacity) r room.memberCapacity
      admin := Function.update (fun r => (reg.rooms r).adminClient) r room.adminClient
      title := Function.update (fun r => (reg.rooms r).roomName) r room.roomName } := by
  simp [rosterOf, update_proj Room.members, update_proj Room.memberCapacity,
    update_proj Room.adminClient, update_proj Room.roomName]

theorem rosterOf_setClient {client : Client} : rosterOf (reg.setClient c client) conns =
    { rosterOf reg conns with
      location := Function.update (fun c => (reg.clients c).currentRoom) c client.currentRoom
      name := Function.update (fun c => (reg.clients c).clientName) c client.clientName
      address := Function.update (fun c => (reg.clients c).socketFd) c client.socketFd } := by
  simp [rosterOf, update_proj Client.socketFd, update_proj Client.clientName,
    update_proj Client.currentRoom]

theorem rosterOf_modifyRoom {f : Room → Room}
    (h : ∀ room, (f room).members = room.members ∧ (f room).memberCapacity = room.memberCapacity ∧
      (f room).adminClient = room.adminClient ∧ (f room).roomName = room.roomName) :
    rosterOf (reg.modifyRoom r f) conns = rosterOf reg conns := by
  rw [Registry.modifyRoom, rosterOf_setRoom]
  simp [rosterOf, h]

theorem rosterOf_modifyClient {f : Client → Client}
    (h : ∀ client, (f client).socketFd = client.socketFd ∧
      (f client).clientName = client.clientName ∧ (f client).currentRoom = client.currentRoom) :
    rosterOf (reg.modifyClient c f) conns = rosterOf reg conns := by
  rw [Registry.modifyClient, rosterOf_setClient]
  simp [rosterOf, h]

theorem broadcastFds_congr {fd : Fd} (h : rosterOf reg' conns = rosterOf reg conns) :
    broadcastFds r fd reg' = broadcastFds r fd reg := by
  have hm : (reg'.rooms r).members = (reg.rooms r).members :=
    congrFun (congrArg Roster.members h) r
  have ha : ∀ c, (reg'.clients c).socketFd = (reg.clients c).socketFd :=
    fun c => congrFun (congrArg Roster.address h) c
  simp only [broadcastFds, hm, ha]

theorem rosterOf_rateLimitCheck {ok : Bool} (h : rateLimitCheck env c reg = (ok, reg')) :
    rosterOf reg' conns = rosterOf reg conns := by
  unfold rateLimitCheck at h
  simp only at h
  split_ifs at h <;> cases h <;> exact rosterOf_modifyClient fun _ => ⟨rfl, rfl, rfl⟩

theorem findClient_rateLimitCheck {ok : Bool} (h : rateLimitCheck env c reg = (ok, reg')) :
    ∀ o, findClient o reg' = findClient o reg := by
  have hkeep : rosterOf reg' .empty = rosterOf reg .empty := rosterOf_rateLimitCheck h
  have hlist : reg'.clientList = reg.clientList := congrArg Roster.clients hkeep
  have hname : ∀ c, (reg'.clients c).clientName = (reg.clients c).clientName :=
    fun c => congrFun (congrArg Roster.name hkeep) c
  intro o
  cases o with
  | none => rfl
  | some name => simp only [findClient, hlist, hname]

theorem rosterOf_roomAddHistory {sender text : Text} :
    rosterOf (roomAddHistory env r sender text db reg).2.2 conns = rosterOf reg conns := by
  by_cases h : (reg.rooms r).history.cap = 0
  · simp only [roomAddHistory, h, if_true]
  · simp only [roomAddHistory, h, if_false]
    exact rosterOf_modifyRoom fun _ => ⟨rfl, rfl, rfl, rfl⟩

theorem rosterOf_roomEditMessage {id : ℤ} {requester text : Text} {db' : Database}
    {res : ChangeResult} (h : roomEditMessage env r id requester text db reg = (res, db', reg')) :
    rosterOf reg' conns = rosterOf reg conns := by
  unfold roomEditMessage at h
  split at h <;> cases h
  · exact rosterOf_modifyRoom fun _ => ⟨rfl, rfl, rfl, rfl⟩
  · rfl

theorem rosterOf_roomDeleteMessage {id : ℤ} {requester : Text} {isAdmin : Bool} {db' : Database}
    {res : ChangeResult}
    (h : roomDeleteMessage env r id requester isAdmin db reg = (res, db', reg')) :
    rosterOf reg' conns = rosterOf reg conns := by
  unfold roomDeleteMessage at h
  split at h <;> cases h
  · exact rosterOf_modifyRoom fun _ => ⟨rfl, rfl, rfl, rfl⟩
  · rfl

theorem broadcastFds_roomAddHistory {ok : Bool} {fd : Fd} {sender text : Text}
    (h : rateLimitCheck env c reg = (ok, reg')) :
    broadcastFds r fd (roomAddHistory env r sender text db reg').2.2 = broadcastFds r fd reg := by
  have hkeep : rosterOf (roomAddHistory env r sender text db reg').2.2 .empty =
      rosterOf reg .empty := rosterOf_roomAddHistory.trans (rosterOf_rateLimitCheck h)
  exact broadcastFds_congr hkeep

@[simp] theorem rosterOf_set_same (hconn : conns.get conn.fd = some conn) {me : Option ClientPtr}
    (hme : conn.me = me) : rosterOf reg (conns.set { conn with me }) = rosterOf reg conns := by
  subst hme
  simp only [rosterOf, Conns.set, update_proj (Option.map Conn.me), Roster.mk.injEq, true_and,
    and_true]
  refine (Function.update_eq_self_iff).mpr ?_
  rw [hconn]

theorem rosterOf_leave : rosterOf
      ((roomRemoveMember (some r) (some c) reg).2.setCurrentRoom c none) conns =
    (rosterOf reg conns).apply (.leave c r) := by
  rw [roomRemoveMember_snd, Registry.setCurrentRoom_eq, rosterOf_setClient, Registry.modifyRoom_eq,
    rosterOf_setRoom]
  simp [rosterOf, Roster.apply]

theorem rosterOf_enter : rosterOf
      ((reg.modifyRoom r fun room =>
        { room with members := room.members ++ [c] }).setCurrentRoom c (some r)) conns =
    (rosterOf reg conns).apply (.enter c r n) := by
  rw [Registry.setCurrentRoom_eq, rosterOf_setClient, Registry.modifyRoom_eq, rosterOf_setRoom]
  simp [rosterOf, Roster.apply]

theorem rosterOf_sit : rosterOf (reg.setCurrentRoom c (some r)) conns =
    (rosterOf reg conns).apply (.sit c r n) := by
  rw [Registry.setCurrentRoom_eq, rosterOf_setClient]
  simp [rosterOf, Roster.apply]

theorem rosterOf_promote :
    rosterOf (reg.setAdmin r c) conns = (rosterOf reg conns).apply (.promote r c) := by
  rw [Registry.setAdmin_eq, rosterOf_setRoom]
  simp [rosterOf, Roster.apply]

theorem rosterOf_create (hn : badLength maxRoomNameLen n = false) : rosterOf
      { reg.setRoom r (newRoom env n c reg db) with roomList := reg.roomList ++ [r] } conns =
    (rosterOf reg conns).apply (.create r c n reg.maxMembers) := by
  change { rosterOf (reg.setRoom r _) conns with rooms := reg.roomList ++ [r] } = _
  rw [rosterOf_setRoom]
  simp [rosterOf, Roster.apply, newRoom, strncpy_of_not_badLength hn]

theorem rosterOf_login (hn : badLength maxUsernameLen n = false) : rosterOf
      { reg.setClient c (newClient env conn.fd n) with clientList := reg.clientList ++ [c] }
      (conns.set { conn with me := some c }) =
    (rosterOf reg conns).apply (.login conn.fd c n) := by
  change { rosterOf (reg.setClient c _) _ with clients := reg.clientList ++ [c] } = _
  rw [rosterOf_setClient]
  simp [rosterOf, Roster.apply, newClient, strncpy_of_not_badLength hn, Conns.set,
    update_proj (Option.map Conn.me)]

theorem deleteClient_snd : (deleteClient (some c) reg).2 =
    { reg with clientList := reg.clientList.erase c } := by
  simp only [deleteClient]
  split_ifs with h
  · rfl
  · rw [List.erase_of_not_mem h]

theorem rosterOf_logout : rosterOf
      (deleteClient (some c) reg).2 (conns.set { conn with me := none }) =
    (rosterOf reg conns).apply (.logout conn.fd c) := by
  rw [deleteClient_snd]
  simp [rosterOf, Roster.apply, Conns.set, update_proj (Option.map Conn.me)]

theorem rosterOf_logout_hangup : rosterOf
      (deleteClient (some c) reg).2 (conns.remove conn.fd) =
    ((rosterOf reg conns).apply (.logout conn.fd c)).apply (.hangup conn.fd) := by
  rw [deleteClient_snd]
  simp [rosterOf, Roster.apply, Conns.remove, update_proj (Option.map Conn.me)]

theorem rosterOf_hangup {fd : Fd} :
    rosterOf reg (conns.remove fd) = (rosterOf reg conns).apply (.hangup fd) := by
  simp [rosterOf, Roster.apply, Conns.remove, update_proj (Option.map Conn.me)]

theorem rosterOf_connect {fd : Fd} {ssl : Bool} :
    rosterOf reg (conns.set ⟨fd, none, ssl⟩) = (rosterOf reg conns).apply (.connect fd) := by
  simp [rosterOf, Roster.apply, Conns.set, update_proj (Option.map Conn.me)]

end ChatServer
