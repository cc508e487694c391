import ChatServer.Library.Run
import ChatServer.Membership.Projection
import ChatServer.Registry.Arrays

/-! # The ledger of the registry

A ledger has the rooms, the clients and the members that the calls reported to
have inserted and not yet reported to have removed, in the order of the
insertions. After any calls the arrays hold the lists of the ledger.
-/

namespace ChatServer

open Library

/-- A call on the registry, or a handler's write to the room of a client. -/
inductive RegistryCall where
  | createRoom (env : Env) (roomName : Option Text) (creator : Option ClientPtr) (db : Database)
  | deleteRoom (room : Option RoomPtr)
  | createClient (env : Env) (socketFd : Fd) (clientName : Text)
  | createClientForce (env : Env) (socketFd : Fd) (clientName : Text)
  | deleteClient (client : Option ClientPtr)
  | roomAddMember (room : Option RoomPtr) (client : Option ClientPtr)
  | roomRemoveMember (room : Option RoomPtr) (client : Option ClientPtr)
  | setCurrentRoom (client : ClientPtr) (room : Option RoomPtr)

/-- What a call returns. -/
inductive Outcome where
  | room (err : RoomErr) (room : Option RoomPtr)
  | client (err : ClientErr) (client : Option ClientPtr)
  | written
  deriving DecidableEq

def Outcome.Failed : Outcome → Prop
  | .room err _ => err ≠ .ok
  | .client err _ => err ≠ .ok
  | .written => False

namespace RegistryCall

/-- The call on the arrays. -/
def arrays (mem : RegistryMem) : RegistryCall → Outcome × RegistryMem
  | .createRoom env roomName creator db =>
    let (err, r, mem) := mem.createRoom env roomName creator db
    (.room err r, mem)
  | .deleteRoom room => (mem.deleteRoom room).map (.room · none) id
  | .createClient env socketFd clientName =>
    let (err, c, mem) := mem.createClient env socketFd clientName
    (.client err c, mem)
  | .createClientForce env socketFd clientName =>
    let (err, c, mem) := mem.createClientForce env socketFd clientName
    (.client err c, mem)
  | .deleteClient client => (mem.deleteClient client).map (.client · none) id
  | .roomAddMember room client => (mem.roomAddMember room client).map (.room · none) id
  | .roomRemoveMember room client => (mem.roomRemoveMember room client).map (.room · none) id
  | .setCurrentRoom client room => (.written, mem.setCurrentRoom client room)

/-- The call on the lists. -/
def lists (reg : Registry) : RegistryCall → Outcome × Registry
  | .createRoom env roomName creator db =>
    let (err, r, reg) := ChatServer.createRoom env roomName creator db reg
    (.room err r, reg)
  | .deleteRoom room => (ChatServer.deleteRoom room reg).map (.room · none) id
  | .createClient env socketFd clientName =>
    let (err, c, reg) := ChatServer.createClient env socketFd clientName reg
    (.client err c, reg)
  | .createClientForce env socketFd clientName =>
    let (err, c, reg) := ChatServer.createClientForce env socketFd clientName reg
    (.client err c, reg)
  | .deleteClient client => (ChatServer.deleteClient client reg).map (.client · none) id
  | .roomAddMember room client => (ChatServer.roomAddMember room client reg).map (.room · none) id
  | .roomRemoveMember room client =>
    (ChatServer.roomRemoveMember room client reg).map (.room · none) id
  | .setCurrentRoom client room => (.written, reg.setCurrentRoom client room)

variable {mem : RegistryMem} {reg : Registry}

theorem arrays_lists (h : mem.Holds reg) (call : RegistryCall) :
    (call.arrays mem).1 = (call.lists reg).1 ∧ (call.arrays mem).2.Holds (call.lists reg).2 := by
  cases call with
  | createRoom env roomName creator db =>
    obtain ⟨herr, hr, hmem⟩ := h.createRoom env roomName creator db
    exact ⟨congrArg₂ Outcome.room herr hr, hmem⟩
  | deleteRoom room =>
    obtain ⟨herr, hmem⟩ := h.deleteRoom room
    exact ⟨congrArg (Outcome.room · none) herr, hmem⟩
  | createClient env socketFd clientName =>
    obtain ⟨herr, hc, hmem⟩ := h.createClientWith env true socketFd clientName
    exact ⟨congrArg₂ Outcome.client herr hc, hmem⟩
  | createClientForce env socketFd clientName =>
    obtain ⟨herr, hc, hmem⟩ := h.createClientWith env false socketFd clientName
    exact ⟨congrArg₂ Outcome.client herr hc, hmem⟩
  | deleteClient client =>
    obtain ⟨herr, hmem⟩ := h.deleteClient client
    exact ⟨congrArg (Outcome.client · none) herr, hmem⟩
  | roomAddMember room client =>
    obtain ⟨herr, hmem⟩ := h.roomAddMember room client
    exact ⟨congrArg (Outcome.room · none) herr, hmem⟩
  | roomRemoveMember room client =>
    obtain ⟨herr, hmem⟩ := h.roomRemoveMember room client
    exact ⟨congrArg (Outcome.room · none) herr, hmem⟩
  | setCurrentRoom client room => exact ⟨rfl, h.setCurrentRoom client room⟩

end RegistryCall

/-- What the outcomes of the calls say the registry contains, and what it has room for. -/
structure Ledger where
  roomCapacity : ℕ
  clientCapacity : ℕ
  maxMembers : ℕ
  rooms : List RoomPtr
  clients : List ClientPtr
  members : RoomPtr → List ClientPtr
  roomName : RoomPtr → Text
  clientName : ClientPtr → Text

namespace Ledger

def empty (roomCapacity clientCapacity maxMembers : ℕ) : Ledger :=
  ⟨roomCapacity, clientCapacity, maxMembers, [], [], fun _ => [], fun _ => [], fun _ => []⟩

def insertRoom (ledger : Ledger) (r : RoomPtr) (name : Text) : Ledger :=
  { ledger with
    rooms := ledger.rooms ++ [r]
    members := Function.update ledger.members r []
    roomName := Function.update ledger.roomName r name }

def insertClient (ledger : Ledger) (c : ClientPtr) (name : Text) : Ledger :=
  { ledger with
    clients := ledger.clients ++ [c]
    clientName := Function.update ledger.clientName c name }

def setMembers (ledger : Ledger) (r : RoomPtr) (members : List ClientPtr) : Ledger :=
  { ledger with members := Function.update ledger.members r members }

/-- Enter a call that succeeded. -/
def record (ledger : Ledger) : RegistryCall → Outcome → Ledger
  | .createRoom _ (some name) _ _, .room .ok (some r) => ledger.insertRoom r name
  | .deleteRoom (some r), .room .ok _ => { ledger with rooms := ledger.rooms.erase r }
  | .createClient _ _ name, .client .ok (some c) => ledger.insertClient c name
  | .createClientForce _ _ name, .client .ok (some c) => ledger.insertClient c name
  | .deleteClient (some c), .client .ok _ => { ledger with clients := ledger.clients.erase c }
  | .roomAddMember (some r) (some c), .room .ok _ =>
    ledger.setMembers r (ledger.members r ++ [c])
  | .roomRemoveMember (some r) (some c), .room .ok _ =>
    ledger.setMembers r ((ledger.members r).erase c)
  | _, _ => ledger

theorem record_failed (ledger : Ledger) (call : RegistryCall) {o : Outcome} (h : o.Failed) :
    ledger.record call o = ledger := by
  unfold record
  split
  all_goals first | rfl | exact absurd rfl h

/--
What a call that succeeded enters. It has inserted the element that it returns,
or that it was given, or removed one that was there.
-/
inductive Enters (ledger : Ledger) : RegistryCall → Outcome → Ledger → Prop where
  | createRoom {env : Env} {name : Text} {creator : ClientPtr} {db : Database} {r : RoomPtr}
      (unused : r ∉ ledger.rooms) :
      Enters ledger (.createRoom env (some name) (some creator) db) (.room .ok (some r))
        (ledger.insertRoom r name)
  | deleteRoom {r : RoomPtr} (live : r ∈ ledger.rooms) :
      Enters ledger (.deleteRoom (some r)) (.room .ok none)
        { ledger with rooms := ledger.rooms.erase r }
  | createClient {env : Env} {fd : Fd} {name : Text} {c : ClientPtr}
      (unused : c ∉ ledger.clients) :
      Enters ledger (.createClient env fd name) (.client .ok (some c)) (ledger.insertClient c name)
  | createClientForce {env : Env} {fd : Fd} {name : Text} {c : ClientPtr}
      (unused : c ∉ ledger.clients) :
      Enters ledger (.createClientForce env fd name) (.client .ok (some c))
        (ledger.insertClient c name)
  | deleteClient {c : ClientPtr} (live : c ∈ ledger.clients) :
      Enters ledger (.deleteClient (some c)) (.client .ok none)
        { ledger with clients := ledger.clients.erase c }
  | roomAddMember {r : RoomPtr} {c : ClientPtr} :
      Enters ledger (.roomAddMember (some r) (some c)) (.room .ok none)
        (ledger.setMembers r (ledger.members r ++ [c]))
  | roomRemoveMember {r : RoomPtr} {c : ClientPtr} (inside : c ∈ ledger.members r) :
      Enters ledger (.roomRemoveMember (some r) (some c)) (.room .ok none)
        (ledger.setMembers r ((ledger.members r).erase c))
  | setCurrentRoom {c : ClientPtr} {room : Option RoomPtr} :
      Enters ledger (.setCurrentRoom c room) .written ledger

end Ledger

/-- The lists of a registry are those of a ledger. -/
structure Registry.Keeps (reg : Registry) (ledger : Ledger) : Prop where
  roomCapacity : reg.roomCapacity = ledger.roomCapacity
  clientCapacity : reg.clientCapacity = ledger.clientCapacity
  maxMembers : reg.maxMembers = ledger.maxMembers
  memberCapacity : ∀ r ∈ ledger.rooms, (reg.rooms r).memberCapacity = ledger.maxMembers
  roomList : reg.roomList = ledger.rooms
  clientList : reg.clientList = ledger.clients
  members : ∀ r, (reg.rooms r).members = ledger.members r
  roomName : ∀ r, (reg.rooms r).roomName = ledger.roomName r
  clientName : ∀ c, (reg.clients c).clientName = ledger.clientName c
  valid : ∀ r ∈ ledger.rooms, badLength maxRoomNameLen (ledger.roomName r) = false
  distinct : (ledger.rooms.map ledger.roomName).Nodup

namespace Registry.Keeps

variable {reg reg' : Registry} {ledger : Ledger} {r : RoomPtr} {c : ClientPtr} {name : Text}
  {env : Env}

theorem fresh (roomCapacity clientCapacity maxMembers historySize : ℕ) :
    (Registry.fresh roomCapacity clientCapacity maxMembers historySize).Keeps
      (.empty roomCapacity clientCapacity maxMembers) where
  roomCapacity := rfl
  clientCapacity := rfl
  maxMembers := rfl
  memberCapacity := nofun
  roomList := rfl
  clientList := rfl
  members := fun _ => rfl
  roomName := fun _ => rfl
  clientName := fun _ => rfl
  valid := nofun
  distinct := List.nodup_nil

theorem createRoom (h : reg.Keeps ledger) {db : Database} (hr : r ∉ reg.roomList)
    (hfree : ∀ q ∈ reg.roomList, (reg.rooms q).roomName ≠ name)
    (hname : badLength maxRoomNameLen name = false) :
    Registry.Keeps
      { reg.setRoom r (newRoom env name c reg db) with roomList := reg.roomList ++ [r] }
      (ledger.insertRoom r name) := by
  have hmap : ledger.rooms.map (Function.update ledger.roomName r name) =
      ledger.rooms.map ledger.roomName := by
    refine List.map_congr_left fun q hq => Function.update_of_ne ?_ _ _
    rintro rfl
    exact hr (h.roomList ▸ hq)
  have hold : ∀ q ∈ (ledger.insertRoom r name).rooms, q ≠ r → q ∈ ledger.rooms := fun q hq hne =>
    (List.mem_append.mp hq).resolve_right fun hq => hne (List.mem_singleton.mp hq)
  refine { h with
    memberCapacity := fun q hq => ?_
    roomList := ?_
    members := fun q => ?_
    roomName := fun q => ?_
    valid := fun q hq => ?_
    distinct := ?_ }
  · simp only [setRoom_rooms, Function.update_apply]
    split
    · exact h.maxMembers
    · rename_i hne
      exact h.memberCapacity q (hold q hq hne)
  · exact congrArg (· ++ [r]) h.roomList
  · simp only [setRoom_rooms, Ledger.insertRoom, Function.update_apply]
    split
    · rfl
    · exact h.members q
  · simp only [setRoom_rooms, Ledger.insertRoom, Function.update_apply]
    split
    · exact strncpy_of_not_badLength hname
    · exact h.roomName q
  · simp only [Ledger.insertRoom, Function.update_apply]
    split
    · exact hname
    · rename_i hne
      exact h.valid q (hold q hq hne)
  · simp only [Ledger.insertRoom, List.map_append, hmap, List.map_cons, List.map_nil,
      Function.update_self]
    refine h.distinct.append (List.nodup_singleton _) fun n hn hn' => ?_
    obtain ⟨q, hq, rfl⟩ := List.mem_map.mp hn
    rw [← h.roomName] at hn'
    exact hfree q (h.roomList ▸ hq) (List.mem_singleton.mp hn')

theorem createClient (h : reg.Keeps ledger) {fd : Fd}
    (hname : badLength maxUsernameLen name = false) :
    Registry.Keeps
      { reg.setClient c (newClient env fd name) with clientList := reg.clientList ++ [c] }
      (ledger.insertClient c name) := by
  refine { h with clientList := ?_, clientName := fun q => ?_ }
  · exact congrArg (· ++ [c]) h.clientList
  · simp only [setClient_clients, Ledger.insertClient, Function.update_apply]
    split
    · exact strncpy_of_not_badLength hname
    · exact h.clientName q

theorem eraseRoom (h : reg.Keeps ledger) (r : RoomPtr) :
    Registry.Keeps { reg with roomList := reg.roomList.erase r }
      { ledger with rooms := ledger.rooms.erase r } where
  roomCapacity := h.roomCapacity
  clientCapacity := h.clientCapacity
  maxMembers := h.maxMembers
  memberCapacity := fun q hq => h.memberCapacity q (List.mem_of_mem_erase hq)
  roomList := congrArg (List.erase · r) h.roomList
  clientList := h.clientList
  members := h.members
  roomName := h.roomName
  clientName := h.clientName
  valid := fun q hq => h.valid q (List.mem_of_mem_erase hq)
  distinct := h.distinct.sublist ((List.erase_sublist).map _)

theorem eraseClient (h : reg.Keeps ledger) (c : ClientPtr) :
    Registry.Keeps { reg with clientList := reg.clientList.erase c }
      { ledger with clients := ledger.clients.erase c } :=
  { h with clientList := congrArg (List.erase · c) h.clientList }

theorem setMembers (h : reg.Keeps ledger) {members members' : List ClientPtr}
    (hm : members = members') :
    (reg.modifyRoom r fun room => { room with members }).Keeps (ledger.setMembers r members') := by
  refine { h with
    memberCapacity := fun q hq => ?_
    members := fun q => ?_
    roomName := fun q => ?_ }
  · simp only [modifyRoom_eq, setRoom_rooms, Function.update_apply]
    split
    · rename_i hr
      exact h.memberCapacity r (hr ▸ hq)
    · exact h.memberCapacity q hq
  · simp only [modifyRoom_eq, setRoom_rooms, Ledger.setMembers, Function.update_apply]
    split
    · exact hm
    · exact h.members q
  · simp only [modifyRoom_eq, setRoom_rooms, Ledger.setMembers, Function.update_apply]
    split
    · rename_i hq
      rw [hq]
      exact h.roomName r
    · exact h.roomName q

theorem setCurrentRoom (h : reg.Keeps ledger) (c : ClientPtr) (room : Option RoomPtr) :
    (reg.setCurrentRoom c room).Keeps ledger := by
  refine { h with clientName := fun q => ?_ }
  simp only [setCurrentRoom_eq, setClient_clients, Function.update_apply]
  split
  · rename_i hq
    rw [hq]
    exact h.clientName c
  · exact h.clientName q

end Registry.Keeps

namespace RegistryCall

variable {mem : RegistryMem} {reg : Registry} {ledger : Ledger}

/-- What a call does to the lists: nothing if it fails, else one insertion, removal or write. -/
inductive Effect (reg : Registry) : RegistryCall → Outcome → Registry → Prop where
  | failed {call : RegistryCall} {o : Outcome} (h : o.Failed) : Effect reg call o reg
  | createRoom {env : Env} {name : Text} {creator : ClientPtr} {db : Database} {r : RoomPtr}
      (unused : r ∉ reg.roomList) (free : ∀ q ∈ reg.roomList, (reg.rooms q).roomName ≠ name)
      (valid : badLength maxRoomNameLen name = false) :
      Effect reg (.createRoom env (some name) (some creator) db) (.room .ok (some r))
        { reg.setRoom r (newRoom env name creator reg db) with roomList := reg.roomList ++ [r] }
  | deleteRoom {r : RoomPtr} (live : r ∈ reg.roomList) :
      Effect reg (.deleteRoom (some r)) (.room .ok none)
        { reg with roomList := reg.roomList.erase r }
  | createClient {call : RegistryCall} {env : Env} {fd : Fd} {name : Text} {c : ClientPtr}
      (hcall : call = .createClient env fd name ∨ call = .createClientForce env fd name)
      (unused : c ∉ reg.clientList) (valid : badLength maxUsernameLen name = false) :
      Effect reg call (.client .ok (some c))
        { reg.setClient c (newClient env fd name) with clientList := reg.clientList ++ [c] }
  | deleteClient {c : ClientPtr} (live : c ∈ reg.clientList) :
      Effect reg (.deleteClient (some c)) (.client .ok none)
        { reg with clientList := reg.clientList.erase c }
  | roomAddMember {r : RoomPtr} {c : ClientPtr} :
      Effect reg (.roomAddMember (some r) (some c)) (.room .ok none)
        (reg.modifyRoom r fun room => { room with members := room.members ++ [c] })
  | roomRemoveMember {r : RoomPtr} {c : ClientPtr} (inside : c ∈ (reg.rooms r).members) :
      Effect reg (.roomRemoveMember (some r) (some c)) (.room .ok none)
        (reg.modifyRoom r fun room => { room with members := room.members.erase c })
  | setCurrentRoom {c : ClientPtr} {room : Option RoomPtr} :
      Effect reg (.setCurrentRoom c room) .written (reg.setCurrentRoom c room)

theorem effect_createClientWith {call : RegistryCall} {env : Env} {check : Bool} {fd : Fd}
    {name : Text}
    (hcall : call = .createClient env fd name ∨ call = .createClientForce env fd name)
    {err : ClientErr} {o : Option ClientPtr} {reg' : Registry}
    (hres : createClientWith env check fd name reg = (err, o, reg')) :
    Effect reg call (.client err o) reg' := by
  by_cases herr : err = .ok
  · subst herr
    obtain ⟨c, rfl, hc, hname, rfl⟩ := createClientWith_ok hres
    exact .createClient hcall hc hname
  · rw [(createClientWith_err herr hres).2]
    exact .failed herr

theorem lists_effect (reg : Registry) (call : RegistryCall) :
    Effect reg call (call.lists reg).1 (call.lists reg).2 := by
  cases call with
  | createRoom env roomName creator db =>
    simp only [lists]
    cases creator with
    | none => exact .failed (by simp [ChatServer.createRoom, Outcome.Failed])
    | some c =>
      cases roomName with
      | none => exact .failed (by simp [ChatServer.createRoom, Outcome.Failed])
      | some name =>
        rcases hres : ChatServer.createRoom env (some name) (some c) db reg with ⟨err, o, reg'⟩
        by_cases herr : err = .ok
        · subst herr
          obtain ⟨r, rfl, hr, hfree, hname, rfl⟩ := createRoom_ok hres
          exact .createRoom hr hfree hname
        · rw [createRoom_err herr hres]
          exact .failed herr
  | deleteRoom room =>
    cases room with
    | none => exact .failed (by simp [lists, ChatServer.deleteRoom, Outcome.Failed])
    | some r =>
      simp only [lists, ChatServer.deleteRoom]
      split
      · exact .deleteRoom ‹_›
      · exact .failed (by simp [Outcome.Failed])
  | createClient env fd name => exact effect_createClientWith (.inl rfl) rfl
  | createClientForce env fd name => exact effect_createClientWith (.inr rfl) rfl
  | deleteClient client =>
    cases client with
    | none => exact .failed (by simp [lists, ChatServer.deleteClient, Outcome.Failed])
    | some c =>
      simp only [lists, ChatServer.deleteClient]
      split
      · exact .deleteClient ‹_›
      · exact .failed (by simp [Outcome.Failed])
  | roomAddMember room client =>
    cases room with
    | none => exact .failed (by simp [lists, ChatServer.roomAddMember, Outcome.Failed])
    | some r =>
      cases client with
      | none => exact .failed (by simp [lists, ChatServer.roomAddMember, Outcome.Failed])
      | some c =>
        simp only [lists]
        obtain ⟨hres, -⟩ | ⟨hres, -⟩ | ⟨hres, -⟩ := roomAddMember_cases reg r c
        · rw [hres]
          exact .failed (by simp [Outcome.Failed])
        · rw [hres]
          exact .failed (by simp [Outcome.Failed])
        · rw [hres]
          exact .roomAddMember
  | roomRemoveMember room client =>
    cases room with
    | none => exact .failed (by simp [lists, ChatServer.roomRemoveMember, Outcome.Failed])
    | some r =>
      cases client with
      | none => exact .failed (by simp [lists, ChatServer.roomRemoveMember, Outcome.Failed])
      | some c =>
        simp only [lists, ChatServer.roomRemoveMember]
        split
        · exact .roomRemoveMember ‹_›
        · exact .failed (by simp [Outcome.Failed])
  | setCurrentRoom client room => exact .setCurrentRoom

variable {call : RegistryCall} {o : Outcome} {reg' : Registry}

theorem Effect.keeps (h : reg.Keeps ledger) (he : Effect reg call o reg') :
    reg'.Keeps (ledger.record call o) := by
  cases he with
  | failed hfailed => exact (ledger.record_failed call hfailed).symm ▸ h
  | createRoom unused free valid => exact h.createRoom unused free valid
  | deleteRoom live => exact h.eraseRoom _
  | createClient hcall unused valid =>
    rcases hcall with rfl | rfl
    · exact h.createClient valid
    · exact h.createClient valid
  | deleteClient live => exact h.eraseClient _
  | roomAddMember => exact h.setMembers (congrArg (· ++ [_]) (h.members _))
  | roomRemoveMember inside => exact h.setMembers (congrArg (List.erase · _) (h.members _))
  | setCurrentRoom => exact h.setCurrentRoom _ _

/-- A call that does not fail has something to enter. -/
theorem Effect.enters (h : reg.Keeps ledger) (he : Effect reg call o reg') (hok : ¬o.Failed) :
    ledger.Enters call o (ledger.record call o) := by
  cases he with
  | failed hfailed => exact absurd hfailed hok
  | createRoom unused free valid => exact .createRoom (h.roomList ▸ unused)
  | deleteRoom live => exact .deleteRoom (h.roomList ▸ live)
  | createClient hcall unused valid =>
    rcases hcall with rfl | rfl
    · exact .createClient (h.clientList ▸ unused)
    · exact .createClientForce (h.clientList ▸ unused)
  | deleteClient live => exact .deleteClient (h.clientList ▸ live)
  | roomAddMember => exact .roomAddMember
  | roomRemoveMember inside => exact .roomRemoveMember (h.members _ ▸ inside)
  | setCurrentRoom => exact .setCurrentRoom

theorem arrays_failed (mem : RegistryMem) (call : RegistryCall)
    (h : (call.arrays mem).1.Failed) : (call.arrays mem).2 = mem := by
  cases call with
  | createRoom env roomName creator db => exact RegistryMem.createRoom_err h
  | deleteRoom room => exact RegistryMem.deleteRoom_err h
  | createClient env fd name => exact RegistryMem.createClientWith_err h
  | createClientForce env fd name => exact RegistryMem.createClientWith_err h
  | deleteClient client => exact RegistryMem.deleteClient_err h
  | roomAddMember room client => exact RegistryMem.roomAddMember_err h
  | roomRemoveMember room client => exact RegistryMem.roomRemoveMember_err h
  | setCurrentRoom client room => exact h.elim

/-- One call on the arrays, entered in the ledger. -/
def step (s : RegistryMem × Ledger) (call : RegistryCall) : RegistryMem × Ledger :=
  ((call.arrays s.1).2, s.2.record call (call.arrays s.1).1)

end RegistryCall

/-- The arrays hold the lists of the ledger, and a search finds the first element of a name. -/
structure RegistryMem.Refines (mem : RegistryMem) (ledger : Ledger) : Prop where
  roomCapacity : mem.roomList.capacity = ledger.roomCapacity
  clientCapacity : mem.clientList.capacity = ledger.clientCapacity
  memberCapacity : ∀ r ∈ ledger.rooms, (mem.rooms r).members.capacity = ledger.maxMembers
  roomList : mem.roomList.Holds ledger.rooms
  clientList : mem.clientList.Holds ledger.clients
  members : ∀ r ∈ ledger.rooms, (mem.rooms r).members.Holds (ledger.members r)
  roomName : ∀ r ∈ ledger.rooms, (mem.rooms r).roomName = ledger.roomName r
  clientName : ∀ c ∈ ledger.clients, (mem.clients c).clientName = ledger.clientName c
  distinct : (ledger.rooms.map ledger.roomName).Nodup
  findRoom : ∀ name, (mem.findRoom name).2 =
    name.bind fun name => ledger.rooms.find? fun r => ledger.roomName r = name
  findClient : ∀ name, (mem.findClient name).2 =
    name.bind fun name => ledger.clients.find? fun c => ledger.clientName c = name

namespace RegistryMem

variable {mem : RegistryMem} {reg : Registry} {ledger : Ledger}

theorem Holds.refines (hmem : mem.Holds reg) (hreg : reg.Keeps ledger) : mem.Refines ledger where
  roomCapacity := hmem.roomCapacity.trans hreg.roomCapacity
  clientCapacity := hmem.clientCapacity.trans hreg.clientCapacity
  memberCapacity := fun r hr => (hmem.rooms r).memberCapacity.trans (hreg.memberCapacity r hr)
  roomList := hreg.roomList ▸ hmem.roomList
  clientList := hreg.clientList ▸ hmem.clientList
  members := fun r _ => hreg.members r ▸ (hmem.rooms r).members
  roomName := fun r _ => (hmem.rooms r).roomName.trans (hreg.roomName r)
  clientName := fun c _ => hmem.clients ▸ hreg.clientName c
  distinct := hreg.distinct
  findRoom := by
    intro name
    rw [hmem.findRoom]
    cases name with
    | none => rfl
    | some name =>
      simp only [ChatServer.findRoom, hreg.roomList, hreg.roomName, Option.bind_some]
      split
      · -- A name of a length that no room has is not found in the list either.
        rename_i hbad
        refine (List.find?_eq_none.mpr fun r hr hname => ?_).symm
        rw [← of_decide_eq_true hname, hreg.valid r hr] at hbad
        exact Bool.false_ne_true hbad
      · split
        · rename_i hfind; exact hfind.symm
        · rename_i hfind; exact hfind.symm
  findClient := by
    intro name
    rw [hmem.findClient]
    cases name with
    | none => rfl
    | some name =>
      simp only [ChatServer.findClient, hreg.clientList, hreg.clientName, Option.bind_some]
      split
      · rename_i hfind; exact hfind.symm
      · rename_i hfind; exact hfind.symm

/--
After any calls, with any arguments and capacities, each array has in its first
slots the elements inserted and not removed, in the order of the insertions,
and nothing behind them. A call that returns an error changes none of this, and
one that returns no error has inserted the element it returns or was given, or
removed one.
-/
theorem run_refines (roomCapacity clientCapacity maxMembers historySize : ℕ)
    (calls : List RegistryCall) :
    let s := run RegistryCall.step
      (fresh roomCapacity clientCapacity maxMembers historySize,
        .empty roomCapacity clientCapacity maxMembers) calls
    s.1.Refines s.2 ∧
      ∀ call : RegistryCall,
        ((call.arrays s.1).1.Failed → RegistryCall.step s call = s) ∧
        (¬(call.arrays s.1).1.Failed →
          s.2.Enters call (call.arrays s.1).1 (RegistryCall.step s call).2) := by
  intro s
  have hinv : ∃ reg, s.1.Holds reg ∧ reg.Keeps s.2 := by
    refine run_invariant (I := fun s : RegistryMem × Ledger =>
      ∃ reg : Registry, s.1.Holds reg ∧ reg.Keeps s.2) ?_
      ⟨_, holds_fresh _ _ _ historySize, .fresh _ _ _ _⟩ calls
    rintro s call ⟨reg, hmem, hreg⟩
    obtain ⟨hout, hholds⟩ := RegistryCall.arrays_lists hmem call
    refine ⟨_, hholds, ?_⟩
    rw [RegistryCall.step, hout]
    exact (RegistryCall.lists_effect reg call).keeps hreg
  obtain ⟨reg, hmem, hreg⟩ := hinv
  refine ⟨hmem.refines hreg, fun call => ⟨fun hfailed => ?_, fun hok => ?_⟩⟩
  · rw [RegistryCall.step, RegistryCall.arrays_failed _ call hfailed,
      Ledger.record_failed _ _ hfailed]
  · rw [RegistryCall.step, (RegistryCall.arrays_lists hmem call).1] at *
    exact (RegistryCall.lists_effect reg call).enters hreg hok

/-- Three rooms and three members, of which the second ones are removed. -/
def secondRemoved : List RegistryCall :=
  [.createClient (.calm 0 10 []) 4 "alice".toList, .createClient (.calm 0 11 []) 5 "bob".toList,
   .createClientForce (.calm 0 12 []) 6 "bob".toList,
   .createRoom (.calm 0 0 []) (some "lounge".toList) (some 10) .empty,
   .createRoom (.calm 1 0 []) (some "hall".toList) (some 10) .empty,
   .createRoom (.calm 2 0 []) (some "attic".toList) (some 11) .empty,
   .createRoom (.calm 3 0 []) (some "hall".toList) (some 11) .empty,
   .roomAddMember (some 0) (some 10), .roomAddMember (some 0) (some 11),
   .roomAddMember (some 0) (some 12), .roomRemoveMember (some 0) (some 11),
   .deleteRoom (some 1), .deleteClient (some 11)]

theorem secondRemoved_refines :
    let s := run RegistryCall.step (fresh 4 3 3 10, .empty 4 3 3) secondRemoved
    s.1.roomList.Holds [0, 2] ∧ s.1.clientList.Holds [10, 12] ∧
      (s.1.rooms 0).members.Holds [10, 12] ∧
      (s.1.findClient (some "bob".toList)).2 = some 12 := by
  intro s
  obtain ⟨h, -⟩ := run_refines 4 3 3 10 secondRemoved
  have hrooms : s.2.rooms = [0, 2] := by decide +kernel
  have hclients : s.2.clients = [10, 12] := by decide +kernel
  have hmembers : s.2.members 0 = [10, 12] := by decide +kernel
  refine ⟨hrooms ▸ h.roomList, hclients ▸ h.clientList,
    hmembers ▸ h.members 0 (by rw [hrooms]; decide), ?_⟩
  rw [h.findClient]
  decide +kernel

end RegistryMem

end ChatServer
