import ChatServer.Library.SlotArray
import ChatServer.Registry.Basic

/-! # The arrays of the registry

`room_list`, `client_list` and the members of a room are arrays of pointers. The
calls that insert, remove and look up read and write these arrays as the calls
of the registry model do its lists.
-/

namespace ChatServer

open Library

/-- `room_t` as it lies in memory. -/
structure RoomMem where
  roomName : Text
  members : SlotArray ClientPtr
  adminClient : Option ClientPtr
  history : RingBuffer Message

structure RegistryMem where
  roomList : SlotArray RoomPtr
  clientList : SlotArray ClientPtr
  maxMembers : ℕ
  historySize : ℕ
  rooms : RoomPtr → RoomMem
  clients : ClientPtr → Client

namespace RegistryMem

/-- Arrays fresh from `calloc`. -/
def fresh (roomCapacity clientCapacity maxMembers historySize : ℕ) : RegistryMem where
  roomList := .empty RoomPtr roomCapacity
  clientList := .empty ClientPtr clientCapacity
  maxMembers := maxMembers
  historySize := historySize
  rooms := fun _ => ⟨[], .empty ClientPtr 0, none, .empty zeroMessage 0⟩
  clients := fun _ => zeroClient

def registryInit (cfg : Config) : RegistryMem :=
  fresh (if 0 < cfg.maxRooms then cfg.maxRooms.toNat else cfgDefaultMaxRooms)
    (if 0 < cfg.maxClients then cfg.maxClients.toNat else cfgDefaultMaxClients)
    (if 0 < cfg.maxMembers then cfg.maxMembers.toNat else cfgDefaultMaxMembers)
    (if 0 ≤ cfg.historySize then cfg.historySize.toNat else cfgDefaultHistorySize)

def setMembers (mem : RegistryMem) (r : RoomPtr) (members : SlotArray ClientPtr) : RegistryMem :=
  { mem with rooms := Function.update mem.rooms r { mem.rooms r with members } }

def setCurrentRoom (mem : RegistryMem) (c : ClientPtr) (room : Option RoomPtr) : RegistryMem :=
  { mem with clients := Function.update mem.clients c { mem.clients c with currentRoom := room } }

variable (env : Env) (mem : RegistryMem)

def findRoom (roomName : Option Text) : RoomErr × Option RoomPtr :=
  match roomName with
  | none => (.invalidName, none)
  | some name =>
    if badLength maxRoomNameLen name then (.invalidName, none)
    else match (mem.roomList.scan fun r => (mem.rooms r).roomName = name).bind
        mem.roomList.slots with
      | some r => (.ok, some r)
      | none => (.notFound, none)

/-- The room `create_room` builds, with the messages of the database under its name. -/
def newRoom (roomName : Text) (creator : ClientPtr) (db : Database) : RoomMem where
  roomName := strncpy maxRoomNameLen roomName
  members := .empty ClientPtr mem.maxMembers
  adminClient := some creator
  history := (loadedRows env roomName mem.historySize db).foldl loadMessage
    (.empty zeroMessage mem.historySize)

/-- An address still in use is never handed out, as if the allocation failed. -/
def createRoom (roomName : Option Text) (creator : Option ClientPtr) (db : Database) :
    RoomErr × Option RoomPtr × RegistryMem :=
  match creator, roomName with
  | none, _ => (.invalidClient, none, mem)
  | some _, none => (.invalidName, none, mem)
  | some c, some name =>
    if badLength maxRoomNameLen name then (.invalidName, none, mem)
    else if mem.roomList.capacity = 0 then (.maxRooms, none, mem)
    else if mem.roomList.capacity ≤ mem.roomList.count then (.maxRooms, none, mem)
    else if (mem.findRoom (some name)).2 ≠ none then (.alreadyExists, none, mem)
    else match env.roomMem with
      | none => (.allocFailed, none, mem)
      | some r =>
        if mem.roomList.scan (· = r) ≠ none then (.allocFailed, none, mem)
        else (.ok, some r,
          { mem with
            rooms := Function.update mem.rooms r (mem.newRoom env name c db)
            roomList := mem.roomList.push r })

def roomAddMember (room : Option RoomPtr) (client : Option ClientPtr) : RoomErr × RegistryMem :=
  match room, client with
  | none, _ => (.null, mem)
  | some _, none => (.invalidClient, mem)
  | some r, some c =>
    if (mem.clients c).currentRoom ≠ none then (.alreadyInARoom, mem)
    else if (mem.rooms r).members.capacity ≤ (mem.rooms r).members.count then (.maxMembers, mem)
    else (.ok, mem.setMembers r ((mem.rooms r).members.push c))

def roomRemoveMember (room : Option RoomPtr) (client : Option ClientPtr) :
    RoomErr × RegistryMem :=
  match room, client with
  | none, _ => (.null, mem)
  | some _, none => (.invalidClient, mem)
  | some r, some c =>
    match (mem.rooms r).members.scan (· = c) with
    | none => (.clientNotFound, mem)
    | some idx => (.ok, mem.setMembers r ((mem.rooms r).members.remove idx))

def deleteRoom (room : Option RoomPtr) : RoomErr × RegistryMem :=
  match room with
  | none => (.null, mem)
  | some r =>
    match mem.roomList.scan (· = r) with
    | none => (.notFound, mem)
    | some idx => (.ok, { mem with roomList := mem.roomList.remove idx })

def findClient (username : Option Text) : ClientErr × Option ClientPtr :=
  match username with
  | none => (.invalidName, none)
  | some name =>
    match (mem.clientList.scan fun c => (mem.clients c).clientName = name).bind
        mem.clientList.slots with
    | some c => (.ok, some c)
    | none => (.notFound, none)

def createClientWith (checkDuplicate : Bool) (socketFd : Fd) (clientName : Text) :
    ClientErr × Option ClientPtr × RegistryMem :=
  if badLength maxUsernameLen clientName then (.invalidName, none, mem)
  else if mem.clientList.capacity = 0 then (.maxClients, none, mem)
  else if mem.clientList.capacity ≤ mem.clientList.count then (.maxClients, none, mem)
  else if checkDuplicate ∧ (mem.findClient (some clientName)).2 ≠ none then
    (.alreadyExists, none, mem)
  else match env.clientMem with
    | none => (.allocFailed, none, mem)
    | some c =>
      if mem.clientList.scan (· = c) ≠ none then (.allocFailed, none, mem)
      else (.ok, some c,
        { mem with
          clients := Function.update mem.clients c (newClient env socketFd clientName)
          clientList := mem.clientList.push c })

def createClient (socketFd : Fd) (clientName : Text) :
    ClientErr × Option ClientPtr × RegistryMem :=
  mem.createClientWith env true socketFd clientName

def createClientForce (socketFd : Fd) (clientName : Text) :
    ClientErr × Option ClientPtr × RegistryMem :=
  mem.createClientWith env false socketFd clientName

def deleteClient (client : Option ClientPtr) : ClientErr × RegistryMem :=
  match client with
  | none => (.null, mem)
  | some c =>
    match mem.clientList.scan (· = c) with
    | none => (.notFound, mem)
    | some idx => (.ok, { mem with clientList := mem.clientList.remove idx })

section Errors

variable {env : Env} {mem : RegistryMem} {name : Option Text} {creator client : Option ClientPtr}
  {room : Option RoomPtr} {db : Database} {check : Bool} {fd : Fd} {clientName : Text}

theorem createRoom_err (h : (mem.createRoom env name creator db).1 ≠ .ok) :
    (mem.createRoom env name creator db).2.2 = mem := by
  revert h
  unfold createRoom
  repeat' split
  all_goals first | exact fun _ => rfl | exact fun h => absurd rfl h

theorem roomAddMember_err (h : (mem.roomAddMember room client).1 ≠ .ok) :
    (mem.roomAddMember room client).2 = mem := by
  revert h
  unfold roomAddMember
  repeat' split
  all_goals first | exact fun _ => rfl | exact fun h => absurd rfl h

theorem roomRemoveMember_err (h : (mem.roomRemoveMember room client).1 ≠ .ok) :
    (mem.roomRemoveMember room client).2 = mem := by
  revert h
  unfold roomRemoveMember
  repeat' split
  all_goals first | exact fun _ => rfl | exact fun h => absurd rfl h

theorem deleteRoom_err (h : (mem.deleteRoom room).1 ≠ .ok) : (mem.deleteRoom room).2 = mem := by
  revert h
  unfold deleteRoom
  repeat' split
  all_goals first | exact fun _ => rfl | exact fun h => absurd rfl h

theorem createClientWith_err (h : (mem.createClientWith env check fd clientName).1 ≠ .ok) :
    (mem.createClientWith env check fd clientName).2.2 = mem := by
  revert h
  unfold createClientWith
  repeat' split
  all_goals first | exact fun _ => rfl | exact fun h => absurd rfl h

theorem deleteClient_err (h : (mem.deleteClient client).1 ≠ .ok) :
    (mem.deleteClient client).2 = mem := by
  revert h
  unfold deleteClient
  repeat' split
  all_goals first | exact fun _ => rfl | exact fun h => absurd rfl h

end Errors

end RegistryMem

/-- The registry of the model before the first call. -/
def Registry.fresh (roomCapacity clientCapacity maxMembers historySize : ℕ) : Registry where
  roomList := []
  roomCapacity := roomCapacity
  clientList := []
  clientCapacity := clientCapacity
  maxMembers := maxMembers
  historySize := historySize
  rooms := fun _ => zeroRoom
  clients := fun _ => zeroClient

/-- A room's memory holds a room of the model. -/
structure RoomMem.Holds (mem : RoomMem) (room : Room) : Prop where
  roomName : mem.roomName = room.roomName
  members : mem.members.Holds room.members
  memberCapacity : mem.members.capacity = room.memberCapacity
  adminClient : mem.adminClient = room.adminClient
  history : mem.history = room.history

structure RegistryMem.Holds (mem : RegistryMem) (reg : Registry) : Prop where
  roomList : mem.roomList.Holds reg.roomList
  roomCapacity : mem.roomList.capacity = reg.roomCapacity
  clientList : mem.clientList.Holds reg.clientList
  clientCapacity : mem.clientList.capacity = reg.clientCapacity
  maxMembers : mem.maxMembers = reg.maxMembers
  historySize : mem.historySize = reg.historySize
  rooms : ∀ r, (mem.rooms r).Holds (reg.rooms r)
  clients : mem.clients = reg.clients

namespace RegistryMem

variable {env : Env} {mem : RegistryMem} {reg : Registry}

theorem holds_fresh (roomCapacity clientCapacity maxMembers historySize : ℕ) :
    (fresh roomCapacity clientCapacity maxMembers historySize).Holds
      (.fresh roomCapacity clientCapacity maxMembers historySize) where
  roomList := SlotArray.holds_empty _
  roomCapacity := rfl
  clientList := SlotArray.holds_empty _
  clientCapacity := rfl
  maxMembers := rfl
  historySize := rfl
  rooms := fun _ => ⟨rfl, SlotArray.holds_empty _, rfl, rfl, rfl⟩
  clients := rfl

theorem holds_registryInit (cfg : Config) :
    (registryInit cfg).Holds (ChatServer.registryInit cfg) := holds_fresh _ _ _ _

theorem Holds.findRoom (h : mem.Holds reg) (name : Option Text) :
    mem.findRoom name = ChatServer.findRoom name reg := by
  have hnames : ∀ n, (fun r => decide ((mem.rooms r).roomName = n)) =
      fun r => decide ((reg.rooms r).roomName = n) := fun n =>
    funext fun r => by rw [(h.rooms r).roomName]
  cases name with
  | none => rfl
  | some n =>
    cases hfound : reg.roomList.find? fun r => decide ((reg.rooms r).roomName = n) with
    | none =>
      simp only [RegistryMem.findRoom, ChatServer.findRoom, h.roomList.slots_scan, hnames, hfound]
    | some r =>
      simp only [RegistryMem.findRoom, ChatServer.findRoom, h.roomList.slots_scan, hnames, hfound]

theorem Holds.findClient (h : mem.Holds reg) (name : Option Text) :
    mem.findClient name = ChatServer.findClient name reg := by
  cases name with
  | none => rfl
  | some n =>
    cases hfound : reg.clientList.find? fun c => decide ((reg.clients c).clientName = n) with
    | none =>
      simp only [RegistryMem.findClient, ChatServer.findClient, h.clientList.slots_scan, h.clients,
        hfound]
    | some c =>
      simp only [RegistryMem.findClient, ChatServer.findClient, h.clientList.slots_scan, h.clients,
        hfound]

theorem Holds.setMembers (h : mem.Holds reg) {r : RoomPtr} {a : SlotArray ClientPtr}
    {members : List ClientPtr} (ha : a.Holds members)
    (hcapacity : a.capacity = (mem.rooms r).members.capacity) :
    (mem.setMembers r a).Holds (reg.modifyRoom r fun room => { room with members }) := by
  refine { h with rooms := fun q => ?_ }
  simp only [RegistryMem.setMembers, Registry.modifyRoom_eq, Registry.setRoom_rooms,
    Function.update_apply]
  split
  · exact { h.rooms r with
      members := ha
      memberCapacity := hcapacity.trans (h.rooms r).memberCapacity }
  · exact h.rooms q

theorem Holds.setCurrentRoom (h : mem.Holds reg) (c : ClientPtr) (room : Option RoomPtr) :
    (mem.setCurrentRoom c room).Holds (reg.setCurrentRoom c room) := by
  refine { h with clients := ?_ }
  simp only [RegistryMem.setCurrentRoom, h.clients, Registry.setCurrentRoom_eq,
    Registry.setClient_clients]

theorem Holds.newRoom (h : mem.Holds reg) (name : Text) (c : ClientPtr) (db : Database) :
    (mem.newRoom env name c db).Holds (ChatServer.newRoom env name c reg db) where
  roomName := rfl
  members := SlotArray.holds_empty _
  memberCapacity := h.maxMembers
  adminClient := rfl
  history := by simp only [RegistryMem.newRoom, ChatServer.newRoom, h.historySize]

theorem Holds.mem_roomList_iff (h : mem.Holds reg) (r : RoomPtr) :
    mem.roomList.scan (· = r) ≠ none ↔ r ∈ reg.roomList := by
  rw [ne_eq, h.roomList.scan_eq_none_iff, not_not]

theorem Holds.mem_clientList_iff (h : mem.Holds reg) (c : ClientPtr) :
    mem.clientList.scan (· = c) ≠ none ↔ c ∈ reg.clientList := by
  rw [ne_eq, h.clientList.scan_eq_none_iff, not_not]

/-- The call on the arrays returns what the call on the lists does, and stays in step with it. -/
theorem Holds.createRoom (h : mem.Holds reg) (env : Env) (name : Option Text)
    (creator : Option ClientPtr) (db : Database) :
    (mem.createRoom env name creator db).1 = (ChatServer.createRoom env name creator db reg).1 ∧
    (mem.createRoom env name creator db).2.1 =
      (ChatServer.createRoom env name creator db reg).2.1 ∧
    (mem.createRoom env name creator db).2.2.Holds
      (ChatServer.createRoom env name creator db reg).2.2 := by
  unfold RegistryMem.createRoom ChatServer.createRoom
  cases creator with
  | none => exact ⟨rfl, rfl, h⟩
  | some c =>
    cases name with
    | none => exact ⟨rfl, rfl, h⟩
    | some name =>
      simp only [h.findRoom, ← Option.isSome_iff_ne_none]
      rw [h.roomCapacity, h.roomList.count]
      split
      · exact ⟨rfl, rfl, h⟩
      split
      · rename_i hcap
        simp only [hcap, Nat.zero_le, if_true, true_and, h]
      split
      · exact ⟨rfl, rfl, h⟩
      rename_i hfull
      split
      · exact ⟨rfl, rfl, h⟩
      cases env.roomMem with
      | none => exact ⟨rfl, rfl, h⟩
      | some r =>
        simp only [Option.isSome_iff_ne_none, h.mem_roomList_iff]
        split
        · exact ⟨rfl, rfl, h⟩
        · have hroom : mem.roomList.count < mem.roomList.capacity := by
            rw [h.roomList.count, h.roomCapacity]
            exact Nat.lt_of_not_le hfull
          refine ⟨rfl, rfl, { h with
            roomList := h.roomList.push hroom r
            roomCapacity := h.roomCapacity
            rooms := fun q => ?_ }⟩
          simp only [Registry.setRoom_rooms, Function.update_apply]
          split
          · exact h.newRoom name c db
          · exact h.rooms q

theorem Holds.roomAddMember (h : mem.Holds reg) (room : Option RoomPtr)
    (client : Option ClientPtr) :
    (mem.roomAddMember room client).1 = (ChatServer.roomAddMember room client reg).1 ∧
    (mem.roomAddMember room client).2.Holds (ChatServer.roomAddMember room client reg).2 := by
  unfold RegistryMem.roomAddMember ChatServer.roomAddMember
  cases room with
  | none => exact ⟨rfl, h⟩
  | some r =>
    cases client with
    | none => exact ⟨rfl, h⟩
    | some c =>
      have hr := h.rooms r
      simp only [h.clients, hr.memberCapacity, hr.members.count]
      split
      · exact ⟨rfl, h⟩
      split
      · exact ⟨rfl, h⟩
      · rename_i hfull
        have hroom : (mem.rooms r).members.count < (mem.rooms r).members.capacity := by
          rw [hr.members.count, hr.memberCapacity]
          exact Nat.lt_of_not_le hfull
        exact ⟨rfl, h.setMembers (hr.members.push hroom c) rfl⟩

theorem Holds.roomRemoveMember (h : mem.Holds reg) (room : Option RoomPtr)
    (client : Option ClientPtr) :
    (mem.roomRemoveMember room client).1 = (ChatServer.roomRemoveMember room client reg).1 ∧
    (mem.roomRemoveMember room client).2.Holds
      (ChatServer.roomRemoveMember room client reg).2 := by
  unfold RegistryMem.roomRemoveMember ChatServer.roomRemoveMember
  cases room with
  | none => exact ⟨rfl, h⟩
  | some r =>
    cases client with
    | none => exact ⟨rfl, h⟩
    | some c =>
      have hr := (h.rooms r).members
      cases hscan : (mem.rooms r).members.scan (· = c) with
      | none =>
        simp only [hscan, if_neg (hr.scan_eq_none_iff.mp hscan), h, and_self]
      | some idx =>
        obtain ⟨hmem, herase⟩ := hr.remove_scan hscan
        simp only [hscan, if_pos hmem, true_and]
        exact h.setMembers herase rfl

theorem Holds.deleteRoom (h : mem.Holds reg) (room : Option RoomPtr) :
    (mem.deleteRoom room).1 = (ChatServer.deleteRoom room reg).1 ∧
    (mem.deleteRoom room).2.Holds (ChatServer.deleteRoom room reg).2 := by
  unfold RegistryMem.deleteRoom ChatServer.deleteRoom
  cases room with
  | none => exact ⟨rfl, h⟩
  | some r =>
    cases hscan : mem.roomList.scan (· = r) with
    | none =>
      simp only [hscan, if_neg (h.roomList.scan_eq_none_iff.mp hscan), h, and_self]
    | some idx =>
      obtain ⟨hmem, herase⟩ := h.roomList.remove_scan hscan
      simp only [hscan, if_pos hmem, true_and]
      exact { h with roomList := herase, roomCapacity := h.roomCapacity }

theorem Holds.createClientWith (h : mem.Holds reg) (env : Env) (checkDuplicate : Bool)
    (socketFd : Fd) (name : Text) :
    (mem.createClientWith env checkDuplicate socketFd name).1 =
      (ChatServer.createClientWith env checkDuplicate socketFd name reg).1 ∧
    (mem.createClientWith env checkDuplicate socketFd name).2.1 =
      (ChatServer.createClientWith env checkDuplicate socketFd name reg).2.1 ∧
    (mem.createClientWith env checkDuplicate socketFd name).2.2.Holds
      (ChatServer.createClientWith env checkDuplicate socketFd name reg).2.2 := by
  unfold RegistryMem.createClientWith ChatServer.createClientWith
  simp only [h.findClient, ← Option.isSome_iff_ne_none]
  rw [h.clientCapacity, h.clientList.count]
  split
  · exact ⟨rfl, rfl, h⟩
  split
  · rename_i hcap
    simp only [hcap, Nat.zero_le, if_true, true_and, h]
  split
  · exact ⟨rfl, rfl, h⟩
  rename_i hfull
  split
  · exact ⟨rfl, rfl, h⟩
  cases env.clientMem with
  | none => exact ⟨rfl, rfl, h⟩
  | some c =>
    simp only [Option.isSome_iff_ne_none, h.mem_clientList_iff]
    split
    · exact ⟨rfl, rfl, h⟩
    · have hroom : mem.clientList.count < mem.clientList.capacity := by
        rw [h.clientList.count, h.clientCapacity]
        exact Nat.lt_of_not_le hfull
      refine ⟨rfl, rfl, { h with
        clientList := h.clientList.push hroom c
        clientCapacity := h.clientCapacity
        clients := ?_ }⟩
      simp only [h.clients, Registry.setClient_clients]

theorem Holds.deleteClient (h : mem.Holds reg) (client : Option ClientPtr) :
    (mem.deleteClient client).1 = (ChatServer.deleteClient client reg).1 ∧
    (mem.deleteClient client).2.Holds (ChatServer.deleteClient client reg).2 := by
  unfold RegistryMem.deleteClient ChatServer.deleteClient
  cases client with
  | none => exact ⟨rfl, h⟩
  | some c =>
    cases hscan : mem.clientList.scan (· = c) with
    | none =>
      simp only [hscan, if_neg (h.clientList.scan_eq_none_iff.mp hscan), h, and_self]
    | some idx =>
      obtain ⟨hmem, herase⟩ := h.clientList.remove_scan hscan
      simp only [hscan, if_pos hmem, true_and]
      exact { h with clientList := herase, clientCapacity := h.clientCapacity }

end RegistryMem

end ChatServer
