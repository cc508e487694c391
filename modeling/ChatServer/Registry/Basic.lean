import Mathlib.Logic.Function.Basic
import ChatServer.Library.RingBuffer
import ChatServer.Store.Database

/-! # The registry

Rooms and clients live at addresses; `room_list` and `client_list` hold the
addresses in use. Memory that was freed keeps its contents until the allocator
hands the address out again.
-/

namespace ChatServer

open Library

inductive RoomErr where
  | ok | invalidName | alreadyExists | alreadyInARoom | maxRooms | allocFailed
  | memberNotInRoom | notFound | null | maxMembers | invalidClient | clientNotFound
  deriving DecidableEq, Repr

inductive ClientErr where
  | ok | invalidName | alreadyExists | maxClients | allocFailed | notFound | null
  deriving DecidableEq, Repr

inductive PresenceStatus where
  | online | away | busy
  deriving DecidableEq, Repr

/-- `room_t`, with `members[0..member_count)` as a list. -/
structure Room where
  roomName : Text
  members : List ClientPtr
  memberCapacity : ℕ
  adminClient : Option ClientPtr
  history : RingBuffer Message

structure Client where
  socketFd : Fd
  clientName : Text
  currentRoom : Option RoomPtr
  status : PresenceStatus
  tokens : ℚ
  lastRefill : Timespec

structure Registry where
  roomList : List RoomPtr
  roomCapacity : ℕ
  clientList : List ClientPtr
  clientCapacity : ℕ
  maxMembers : ℕ
  historySize : ℕ
  rooms : RoomPtr → Room
  clients : ClientPtr → Client

/-- The capacities of the configuration. -/
structure Config where
  maxRooms : ℤ
  maxClients : ℤ
  maxMembers : ℤ
  historySize : ℤ
  deriving DecidableEq, Repr

def cfgDefaultMaxRooms : ℕ := 16
def cfgDefaultMaxClients : ℕ := 64
def cfgDefaultMaxMembers : ℕ := 16
def cfgDefaultHistorySize : ℕ := 10

def rateBucketMax : ℚ := 5
def rateRefillRate : ℚ := 1
def rateMsgCost : ℚ := 1

/-- A slot of a history array fresh from `calloc`. -/
def zeroMessage : Message := ⟨0, [], [], 0, false, 0⟩

def zeroRoom : Room := ⟨[], [], 0, none, .empty zeroMessage 0⟩

def zeroClient : Client := ⟨0, [], none, .online, 0, ⟨0, 0⟩⟩

def registryInit (cfg : Config) : Registry where
  roomList := []
  roomCapacity := if 0 < cfg.maxRooms then cfg.maxRooms.toNat else cfgDefaultMaxRooms
  clientList := []
  clientCapacity := if 0 < cfg.maxClients then cfg.maxClients.toNat else cfgDefaultMaxClients
  maxMembers := if 0 < cfg.maxMembers then cfg.maxMembers.toNat else cfgDefaultMaxMembers
  historySize := if 0 ≤ cfg.historySize then cfg.historySize.toNat else cfgDefaultHistorySize
  rooms := fun _ => zeroRoom
  clients := fun _ => zeroClient

namespace Registry

/-- Write a room's memory. -/
def setRoom (reg : Registry) (r : RoomPtr) (room : Room) : Registry :=
  { reg with rooms := Function.update reg.rooms r room }

/-- Write a client's memory. -/
def setClient (reg : Registry) (c : ClientPtr) (client : Client) : Registry :=
  { reg with clients := Function.update reg.clients c client }

def modifyRoom (reg : Registry) (r : RoomPtr) (f : Room → Room) : Registry :=
  reg.setRoom r (f (reg.rooms r))

def modifyClient (reg : Registry) (c : ClientPtr) (f : Client → Client) : Registry :=
  reg.setClient c (f (reg.clients c))

def setCurrentRoom (reg : Registry) (c : ClientPtr) (room : Option RoomPtr) : Registry :=
  reg.modifyClient c fun client => { client with currentRoom := room }

def setAdmin (reg : Registry) (r : RoomPtr) (c : ClientPtr) : Registry :=
  reg.modifyRoom r fun room => { room with adminClient := some c }

section Writes

variable (reg : Registry) (r : RoomPtr) (c : ClientPtr) (room : Room) (client : Client)
  (f : Room → Room) (g : Client → Client) (o : Option RoomPtr)

@[simp] theorem setRoom_rooms : (reg.setRoom r room).rooms = Function.update reg.rooms r room := rfl

@[simp] theorem setRoom_clients : (reg.setRoom r room).clients = reg.clients := rfl

@[simp] theorem setRoom_roomList : (reg.setRoom r room).roomList = reg.roomList := rfl

@[simp] theorem setRoom_clientList : (reg.setRoom r room).clientList = reg.clientList := rfl

@[simp] theorem setRoom_maxMembers : (reg.setRoom r room).maxMembers = reg.maxMembers := rfl

@[simp] theorem setClient_clients :
    (reg.setClient c client).clients = Function.update reg.clients c client := rfl

@[simp] theorem setClient_rooms : (reg.setClient c client).rooms = reg.rooms := rfl

@[simp] theorem setClient_roomList : (reg.setClient c client).roomList = reg.roomList := rfl

@[simp] theorem setClient_clientList : (reg.setClient c client).clientList = reg.clientList := rfl

@[simp] theorem setClient_maxMembers : (reg.setClient c client).maxMembers = reg.maxMembers := rfl

@[simp] theorem modifyRoom_eq : reg.modifyRoom r f = reg.setRoom r (f (reg.rooms r)) := rfl

@[simp] theorem modifyClient_eq : reg.modifyClient c g = reg.setClient c (g (reg.clients c)) := rfl

@[simp] theorem setCurrentRoom_eq :
    reg.setCurrentRoom c o = reg.setClient c { reg.clients c with currentRoom := o } := rfl

@[simp] theorem setAdmin_eq :
    reg.setAdmin r c = reg.setRoom r { reg.rooms r with adminClient := some c } := rfl

end Writes

end Registry

variable (env : Env)

/-- `strlen(name) == 0 || strlen(name) >= size`. -/
def badLength (size : ℕ) (name : Text) : Bool := name.length = 0 ∨ size ≤ name.length

def findRoom (roomName : Option Text) (reg : Registry) : RoomErr × Option RoomPtr :=
  match roomName with
  | none => (.invalidName, none)
  | some name =>
    if badLength maxRoomNameLen name then (.invalidName, none)
    else match reg.roomList.find? fun r => (reg.rooms r).roomName = name with
      | some r => (.ok, some r)
      | none => (.notFound, none)

/-- Load one row into the ring of a new room. -/
def loadMessage (history : RingBuffer Message) (row : Message) : RingBuffer Message :=
  history.write
    { row with
      sender := strncpy maxUsernameLen row.sender
      text := strncpy maxTextLen row.text }
    (if history.count < history.cap then history.count + 1 else history.count)

/-- The rows a new room loads: none if there is no memory to read them into. -/
def loadedRows (roomName : Text) (capacity : ℕ) (db : Database) : List Message :=
  if env.rowsMem then dbLoadHistory env roomName capacity db else []

theorem loadedRows_sublist (roomName : Text) (capacity : ℕ) (db : Database) :
    (loadedRows env roomName capacity db).Sublist (dbLoadHistory env roomName capacity db) := by
  unfold loadedRows
  split_ifs
  · exact .refl _
  · exact List.nil_sublist _

/-- The room `create_room` builds, with the messages of the database under its name. -/
def newRoom (roomName : Text) (creator : ClientPtr) (reg : Registry) (db : Database) : Room where
  roomName := strncpy maxRoomNameLen roomName
  members := []
  memberCapacity := reg.maxMembers
  adminClient := some creator
  history := (loadedRows env roomName reg.historySize db).foldl loadMessage
    (.empty zeroMessage reg.historySize)

/-- `create_room`. An address still in use is never handed out, as if the allocation failed. -/
def createRoom (roomName : Option Text) (creator : Option ClientPtr) (db : Database)
    (reg : Registry) : RoomErr × Option RoomPtr × Registry :=
  match creator, roomName with
  | none, _ => (.invalidClient, none, reg)
  | some _, none => (.invalidName, none, reg)
  | some c, some name =>
    if badLength maxRoomNameLen name then (.invalidName, none, reg)
    else if reg.roomCapacity ≤ reg.roomList.length then (.maxRooms, none, reg)
    else if (findRoom (some name) reg).2.isSome then (.alreadyExists, none, reg)
    else match env.roomMem with
      | none => (.allocFailed, none, reg)
      | some r =>
        if r ∈ reg.roomList then (.allocFailed, none, reg)
        else (.ok, some r,
          { reg.setRoom r (newRoom env name c reg db) with roomList := reg.roomList ++ [r] })

def roomAddMember (room : Option RoomPtr) (client : Option ClientPtr) (reg : Registry) :
    RoomErr × Registry :=
  match room, client with
  | none, _ => (.null, reg)
  | some _, none => (.invalidClient, reg)
  | some r, some c =>
    if (reg.clients c).currentRoom ≠ none then (.alreadyInARoom, reg)
    else if (reg.rooms r).memberCapacity ≤ (reg.rooms r).members.length then (.maxMembers, reg)
    else (.ok, reg.modifyRoom r fun room => { room with members := room.members ++ [c] })

def roomRemoveMember (room : Option RoomPtr) (client : Option ClientPtr) (reg : Registry) :
    RoomErr × Registry :=
  match room, client with
  | none, _ => (.null, reg)
  | some _, none => (.invalidClient, reg)
  | some r, some c =>
    if c ∈ (reg.rooms r).members then
      (.ok, reg.modifyRoom r fun room => { room with members := room.members.erase c })
    else (.clientNotFound, reg)

/-- The descriptors `room_broadcast` sends to. -/
def broadcastFds (room : RoomPtr) (excludeFd : Fd) (reg : Registry) : List Fd :=
  ((reg.rooms room).members.map fun c => (reg.clients c).socketFd).filter (· ≠ excludeFd)

def deleteRoom (room : Option RoomPtr) (reg : Registry) : RoomErr × Registry :=
  match room with
  | none => (.null, reg)
  | some r =>
    if r ∈ reg.roomList then (.ok, { reg with roomList := reg.roomList.erase r })
    else (.notFound, reg)

def roomDeleteIfEmpty (room : RoomPtr) (reg : Registry) : Registry :=
  if (reg.rooms room).members = [] then (deleteRoom (some room) reg).2 else reg

def findClient (username : Option Text) (reg : Registry) : ClientErr × Option ClientPtr :=
  match username with
  | none => (.invalidName, none)
  | some name =>
    match reg.clientList.find? fun c => (reg.clients c).clientName = name with
    | some c => (.ok, some c)
    | none => (.notFound, none)

def newClient (socketFd : Fd) (clientName : Text) : Client where
  socketFd := socketFd
  clientName := strncpy maxUsernameLen clientName
  currentRoom := none
  status := .online
  tokens := rateBucketMax
  lastRefill := env.monotonic

/--
`create_client` and `create_client_force`, which differ only in the test for a
client of the same name.
-/
def createClientWith (checkDuplicate : Bool) (socketFd : Fd) (clientName : Text) (reg : Registry) :
    ClientErr × Option ClientPtr × Registry :=
  if badLength maxUsernameLen clientName then (.invalidName, none, reg)
  else if reg.clientCapacity ≤ reg.clientList.length then (.maxClients, none, reg)
  else if checkDuplicate ∧ (findClient (some clientName) reg).2.isSome then
    (.alreadyExists, none, reg)
  else match env.clientMem with
    | none => (.allocFailed, none, reg)
    | some c =>
      if c ∈ reg.clientList then (.allocFailed, none, reg)
      else (.ok, some c,
        { reg.setClient c (newClient env socketFd clientName) with
          clientList := reg.clientList ++ [c] })

def createClient (socketFd : Fd) (clientName : Text) (reg : Registry) :
    ClientErr × Option ClientPtr × Registry :=
  createClientWith env true socketFd clientName reg

def createClientForce (socketFd : Fd) (clientName : Text) (reg : Registry) :
    ClientErr × Option ClientPtr × Registry :=
  createClientWith env false socketFd clientName reg

def deleteClient (client : Option ClientPtr) (reg : Registry) : ClientErr × Registry :=
  match client with
  | none => (.null, reg)
  | some c =>
    if c ∈ reg.clientList then (.ok, { reg with clientList := reg.clientList.erase c })
    else (.notFound, reg)

/-- The descriptors `notify_all_clients` sends to. -/
def notifyFds (reg : Registry) : List Fd := reg.clientList.map fun c => (reg.clients c).socketFd

/-- `rate_limit_check`: refill the bucket, then take one message's cost if it is there. -/
def rateLimitCheck (c : ClientPtr) (reg : Registry) : Bool × Registry :=
  let elapsed := env.monotonic.elapsed (reg.clients c).lastRefill
  let filled := (reg.clients c).tokens + elapsed * rateRefillRate
  let tokens := if rateBucketMax < filled then rateBucketMax else filled
  let store (tokens : ℚ) : Registry :=
    reg.modifyClient c fun client => { client with tokens, lastRefill := env.monotonic }
  if tokens < rateMsgCost then (false, store tokens) else (true, store (tokens - rateMsgCost))

end ChatServer
