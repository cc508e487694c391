import ChatServer.Concurrent.Locks

/-! # The locks of the registry and the pool

The functions of `registry.c` and `threadpool.c`, reduced to their operations on
locks. The registry lock and the lock of a room have the same rank: no function
takes one of them while it holds another.
-/

namespace ChatServer.Locks

open Library LockProg

abbrev registryDestroy : ServerProg := guarded 0 .registry false 0

def registryInit : ServerProg :=
  block [maybe ret, maybe (call registryDestroy), maybe ret, maybe ret]

def registryEnsureInit : ServerProg := maybe (call registryInit)

abbrev findRoom : ServerProg := guarded 0 .registry true 0

/-- The history is loaded from the database within the section. -/
def createRoom : ServerProg :=
  block
    [maybe ret, maybe ret, maybe ret, call registryEnsureInit,
      acquire .registry false, block (List.replicate 7 (maybe (unlockRet .registry))),
      maybe (maybe (call dbLoadHistory)), release .registry]

abbrev roomAddMember (r : RoomPtr) : ServerProg := guarded 3 (.room r) false 2

abbrev roomRemoveMember (r : RoomPtr) : ServerProg := guarded 2 (.room r) false 1

abbrev roomBroadcast (r : RoomPtr) : ServerProg := guarded 1 (.room r) false 0

def roomAddHistory (r : RoomPtr) : ServerProg :=
  block [maybe ret, call dbSaveMessage, guarded 0 (.room r) false 1]

abbrev roomSendHistory (r : RoomPtr) : ServerProg := guarded 1 (.room r) false 2

abbrev roomFindMessage (r : RoomPtr) : ServerProg := guarded 1 (.room r) false 0

/-- `room_edit_message` and `room_delete_message`, which write to the database without the lock. -/
def roomChangeMessage (r : RoomPtr) (dbChange : ServerProg) : ServerProg :=
  block [guarded 1 (.room r) false 3, call dbChange]

abbrev roomEditMessage (r : RoomPtr) : ServerProg := roomChangeMessage r dbEditMessage

abbrev roomDeleteMessage (r : RoomPtr) : ServerProg := roomChangeMessage r dbDeleteMessage

abbrev deleteRoom : ServerProg := guarded 0 .registry false 2

/-- The lock of the room is released before the room is deleted. -/
def roomDeleteIfEmpty (r : RoomPtr) : ServerProg :=
  block [guarded 1 (.room r) false 0, maybe (call deleteRoom)]

abbrev notifyAllClients : ServerProg := guarded 1 .registry true 0

abbrev findClient : ServerProg := guarded 0 .registry true 0

def createClient : ServerProg :=
  block [maybe ret, call registryEnsureInit, guarded 0 .registry false 4]

abbrev createClientForce : ServerProg := guarded 1 .registry false 3

abbrev deleteClient : ServerProg := guarded 0 .registry false 2

def threadpoolSubmit : ServerProg :=
  block
    [maybe ret, maybe ret, acquire .pool false, maybe (block [loop (maybe log), log]),
      release .pool]

def threadpoolMaybeShrink : ServerProg :=
  block
    [maybe ret, acquire .pool false, maybe (unlockRet .pool), maybe (unlockRet .pool), maybe log,
      release .pool]

abbrev threadpoolDestroy : ServerProg := guarded 1 .pool false 0

section Balanced

variable {k : ℕ} {r : RoomPtr} {p : ServerProg}

theorem registryEnsureInit_balanced (hk : k ≤ 1) : registryEnsureInit.Balanced Lock.rank k := by
  have hinit : registryInit.Balanced Lock.rank k := by
    rw [balanced_iff]
    simp [registryInit, guarded_balanced (l := .registry) hk]
  rw [balanced_iff]
  simp [registryEnsureInit, hinit]

theorem createRoom_balanced (hk : k ≤ 1) : createRoom.Balanced Lock.rank k := by
  rw [balanced_iff]
  simp (disch := omega) [createRoom, Lock.rank, hk, registryEnsureInit_balanced,
    dbStatement_balanced]

theorem roomAddHistory_balanced (hk : k ≤ 1) : (roomAddHistory r).Balanced Lock.rank k := by
  rw [balanced_iff]
  simp (disch := omega) [roomAddHistory, Lock.rank, hk, dbSaveMessage_balanced]

theorem roomChangeMessage_balanced (hk : k ≤ 1) (hp : p.Balanced Lock.rank k) :
    (roomChangeMessage r p).Balanced Lock.rank k := by
  rw [balanced_iff]
  simp [roomChangeMessage, Lock.rank, hk, hp]

theorem roomDeleteIfEmpty_balanced (hk : k ≤ 1) : (roomDeleteIfEmpty r).Balanced Lock.rank k := by
  rw [balanced_iff]
  simp [roomDeleteIfEmpty, Lock.rank, hk, guarded_balanced (l := .registry) hk]

theorem createClient_balanced (hk : k ≤ 1) : createClient.Balanced Lock.rank k := by
  rw [balanced_iff]
  simp [createClient, Lock.rank, hk, registryEnsureInit_balanced]

theorem threadpoolSubmit_balanced (hk : k ≤ 1) : threadpoolSubmit.Balanced Lock.rank k := by
  rw [balanced_iff]
  simp (disch := omega) [threadpoolSubmit, log, Lock.rank, hk, logWrite_balanced]

theorem threadpoolMaybeShrink_balanced (hk : k ≤ 1) :
    threadpoolMaybeShrink.Balanced Lock.rank k := by
  rw [balanced_iff]
  simp (disch := omega) [threadpoolMaybeShrink, log, Lock.rank, hk, logWrite_balanced]

end Balanced

end ChatServer.Locks
