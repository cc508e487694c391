import ChatServer.Concurrent.RegistryLocks

/-! # The locks of the handlers

`process_line`, command by command, and the threads that run it, reduced to
their operations on locks. A read of `current_room` may give any room; a call
that gets none returns at once. `break` out of a command is its return.
-/

namespace ChatServer.Locks

open Library LockProg

/-- A command that is refused, with an error reply. -/
def refuse : ServerProg := maybe ret

/-- A call with `me->current_room`. -/
def inRoom (f : RoomPtr → ServerProg) : ServerProg := pick fun r => call (f r)

/-- A member leaves: the members are told, and an empty room is deleted. -/
def leave (r : RoomPtr) : ServerProg :=
  block [call (roomRemoveMember r), call (roomBroadcast r), call (roomDeleteIfEmpty r)]

/-- The reply after a login has a new token, and the log says whether there is one. -/
def sessionReply : ServerProg := block [call dbCreateSession, log]

def evictOldClientIfExists : ServerProg := log

/-- The client of a login replaces an older one of its name. -/
def replaceClient : ServerProg :=
  alt (block [call evictOldClientIfExists, call createClientForce]) (call createClient)

def typeRegister : ServerProg :=
  block
    [refuse, refuse, call dbRegisterUser, refuse, refuse, call findClient, refuse,
      call createClient, maybe sessionReply]

def typeLogin : ServerProg :=
  block
    [refuse, refuse, call dbVerifyUser, refuse, refuse, refuse, call findClient, replaceClient,
      maybe sessionReply]

def typeReconnect : ServerProg :=
  block
    [refuse, refuse, call dbCleanupExpiredSessions, call dbValidateSession,
      maybe (block [log, ret]), maybe (block [log, ret]), refuse,
      call dbUserExists, maybe (block [call dbDeleteSession, ret]),
      call findClient, replaceClient, refuse, call dbDeleteSession, sessionReply]

def typeCreate : ServerProg :=
  block [refuse, call createRoom, maybe (block [inRoom roomAddMember, maybe log])]

def typeJoin : ServerProg :=
  block
    [refuse, maybe (inRoom roomRemoveMember), call findRoom,
      maybe (pick fun r => block
        [call (roomAddMember r),
          maybe (block [call (roomSendHistory r), call (roomBroadcast r), log])])]

def typeLeave : ServerProg :=
  block
    [refuse, pick fun r => block
      [call (roomRemoveMember r), refuse, call (roomBroadcast r), call (roomDeleteIfEmpty r), log]]

def typeKick : ServerProg :=
  block
    [refuse, refuse, refuse, refuse, call findClient, refuse, refuse, pick fun r => block
      [call (roomRemoveMember r), refuse, call (roomBroadcast r), call (roomDeleteIfEmpty r), log]]

def typePromote : ServerProg :=
  block
    [refuse, refuse, refuse, call findClient, refuse, refuse, inRoom roomBroadcast, log]

def typeMsg : ServerProg :=
  block [refuse, refuse, refuse, inRoom roomAddHistory, inRoom roomBroadcast, log]

def typeEdit : ServerProg :=
  block
    [refuse, refuse, refuse, inRoom roomEditMessage, refuse, refuse, refuse, inRoom roomBroadcast,
      log]

def typeDelete : ServerProg :=
  block
    [refuse, refuse, refuse, inRoom roomDeleteMessage, refuse, refuse, refuse,
      inRoom roomBroadcast, log]

def typeHistory : ServerProg :=
  block [refuse, call findRoom, refuse, call dbLoadHistoryBefore]

def typePm : ServerProg := block [refuse, refuse, refuse, call findClient, refuse, log]

/-- With and without arguments the listing is printed in one section. -/
def typeRooms : ServerProg :=
  alt (block [acquire .registry true, release .registry])
    (block [acquire .registry true, release .registry])

def typeStatus : ServerProg := block [refuse, refuse, maybe (inRoom roomBroadcast)]

/-- Either form of the listing ends with the unlock of the room that was locked. -/
def typeWho : ServerProg :=
  block
    [refuse, pick fun r => block
      [acquire (.room r) false, maybe (unlockRet (.room r)), release (.room r)]]

def typeLogout : ServerProg :=
  block [refuse, log, maybe (pick leave), call presenceTypingStop, call deleteClient]

def typeLogoutAll : ServerProg :=
  block
    [refuse, log, maybe (pick leave), call presenceTypingStop, call sessionRevokeAll,
      call deleteClient]

def typeSessions : ServerProg := block [refuse, call sessionListForUser]

def typeRevokeSession : ServerProg := block [refuse, refuse, call sessionRevoke, maybe log]

def typeRead : ServerProg :=
  block [refuse, refuse, refuse, call receiptMarkRead, maybe (maybe (inRoom roomBroadcast))]

def typeTyping : ServerProg :=
  block [refuse, refuse, call presenceTypingStart, maybe (inRoom roomBroadcast)]

def typeStopTyping : ServerProg :=
  block [refuse, call presenceTypingStop, maybe (inRoom roomBroadcast)]

def typeBlock : ServerProg := block [refuse, refuse, call blockAdd]

def typeUnblock : ServerProg := block [refuse, refuse, call blockRemove]

def typeMute : ServerProg :=
  block [refuse, refuse, call permissionCheck, refuse, refuse, call muteAdd]

def typeUnmute : ServerProg := block [refuse, refuse, refuse, call muteRemove]

def typeBan : ServerProg :=
  block
    [refuse, refuse, call permissionCheck, refuse, refuse, call banAdd,
      maybe (block [call findClient, maybe (inRoom roomRemoveMember)])]

def typeDemote : ServerProg :=
  block
    [refuse, refuse, call permissionCheck, refuse, refuse, refuse, call permissionGetRole, refuse,
      call permissionSetRole]

def typeCreatePrivate : ServerProg :=
  block
    [refuse, refuse, call createRoom, refuse, inRoom roomAddMember, refuse,
      call permissionSetRole, call dbCreateRoom]

def typeInvite : ServerProg :=
  block
    [refuse, refuse, call permissionCheck, refuse, refuse, call dbUserExists, refuse,
      call inviteCreate, maybe (call findClient)]

def typeAccept : ServerProg :=
  block
    [refuse, refuse, call inviteFind, refuse, call inviteAccept, call findRoom, refuse,
      maybe (inRoom roomRemoveMember),
      pick fun r => block
        [call (roomAddMember r), call (roomSendHistory r), call (roomBroadcast r)]]

def typeDecline : ServerProg := block [refuse, refuse, call inviteDecline]

def loginCommands : List ServerProg := [typeRegister, typeLogin, typeReconnect]

def roomCommands : List ServerProg :=
  [typeCreate, typeJoin, typeLeave, typeKick, typePromote, typeCreatePrivate, typeAccept]

def messageCommands : List ServerProg := [typeMsg, typeEdit, typeDelete, typeHistory, typePm]

def presenceCommands : List ServerProg :=
  [typeRooms, typeStatus, typeWho, typeRead, typeTyping, typeStopTyping]

def sessionCommands : List ServerProg :=
  [typeLogout, typeLogoutAll, typeSessions, typeRevokeSession]

def moderationCommands : List ServerProg :=
  [typeBlock, typeUnblock, typeMute, typeUnmute, typeBan, typeDemote, typeInvite, typeDecline]

def commands : List ServerProg :=
  loginCommands ++ roomCommands ++ messageCommands ++ presenceCommands ++ sessionCommands ++
    moderationCommands

/-- The health commands and the commands that need a login are answered before the switch. -/
def processLine : ServerProg := block [maybe ret, maybe ret, maybe ret, switch commands]

def disconnectCleanup : ServerProg :=
  alt (block [maybe (pick leave), call deleteClient, log]) log

/-- The lock of the connection is held while its lines are processed. -/
def handleClient (c : ConnPtr) : ServerProg :=
  block
    [acquire (.conn c) false, loop (call processLine),
      maybe (block [release (.conn c), call disconnectCleanup, ret]), release (.conn c)]

/-- A wait on the condition releases the lock and takes it again. -/
def worker : ServerProg :=
  loop (block
    [acquire .pool false, loop (block [release .pool, acquire .pool false]),
      maybe (unlockRet .pool), maybe (block [log, unlockRet .pool]), release .pool,
      pick fun c => call (handleClient c),
      maybe (block
        [acquire .pool false, maybe (block [log, unlockRet .pool]), release .pool])])

def acceptClient : ServerProg :=
  block
    [maybe (block [maybe log, ret]), maybe (block [log, ret]), maybe (block [log, ret]),
      maybe (block [log, ret]), log, maybe log]

/-- `run_server` from its event loop on. -/
def runServer : ServerProg :=
  block
    [loop (block
      [maybe (call threadpoolMaybeShrink), maybe (call presenceCleanupStale),
        loop (alt (call acceptClient) (block [call threadpoolSubmit, maybe log]))]),
      maybe log, log, log, call notifyAllClients, call threadpoolDestroy, call dbClose,
      call registryDestroy, log]

section Balanced

variable {k : ℕ} {f : RoomPtr → ServerProg} {next : List (Lock × Bool) → Prop}

@[simp] theorem checks_refuse : refuse.Checks Lock.rank k [] next ↔ next [] := by
  simp [refuse]

theorem checks_inRoom (hf : ∀ r, (f r).Balanced Lock.rank k) :
    (inRoom f).Checks Lock.rank k [] next ↔ next [] := by
  simp [inRoom, hf]

theorem checks_log (hk : k ≤ 3) : log.Checks Lock.rank k [] next ↔ next [] := by
  simp [log, logWrite_balanced hk]

theorem checks_sessionReply (hk : k ≤ 2) :
    sessionReply.Checks Lock.rank k [] next ↔ next [] := by
  simp (disch := omega) [sessionReply, checks_log, dbCreateSession_balanced]

theorem checks_replaceClient (hk : k ≤ 1) :
    replaceClient.Checks Lock.rank k [] next ↔ next [] := by
  have hevict : evictOldClientIfExists.Balanced Lock.rank k := by
    rw [balanced_iff]
    simp (disch := omega) [evictOldClientIfExists, checks_log]
  simp (disch := omega) [replaceClient, hevict, guarded_balanced (l := .registry) hk,
    createClient_balanced]

theorem checks_leave (hk : k ≤ 1) (r : RoomPtr) :
    (leave r).Checks Lock.rank k [] next ↔ next [] := by
  simp [leave, guarded_balanced (l := .room r) hk, roomDeleteIfEmpty_balanced hk]

theorem loginCommands_balanced (hk : k ≤ 1) :
    ∀ p ∈ loginCommands, p.Balanced Lock.rank k := by
  have hk2 : k ≤ 2 := by omega
  have hk3 : k ≤ 3 := by omega
  simp only [loginCommands, List.forall_mem_cons, List.not_mem_nil, false_implies, implies_true,
    and_true]
  refine ⟨?_, ?_, ?_⟩ <;> rw [balanced_iff]
  · simp [typeRegister, guarded_balanced, Lock.rank, hk, dbStatement_balanced hk2,
      createClient_balanced, checks_sessionReply hk2]
  · simp [typeLogin, guarded_balanced, Lock.rank, hk, dbVerifyUser_balanced hk2,
      checks_replaceClient, checks_sessionReply hk2]
  · simp [typeReconnect, guarded_balanced, Lock.rank, hk, dbStatement_balanced hk2,
      dbCleanupExpiredSessions_balanced hk2, dbValidateSession_balanced hk2, checks_log hk3,
      checks_replaceClient, checks_sessionReply hk2]

theorem roomCommands_balanced (hk : k ≤ 1) :
    ∀ p ∈ roomCommands, p.Balanced Lock.rank k := by
  have hk2 : k ≤ 2 := by omega
  have hk3 : k ≤ 3 := by omega
  simp only [roomCommands, List.forall_mem_cons, List.not_mem_nil, false_implies, implies_true,
    and_true]
  refine ⟨?_, ?_, ?_, ?_, ?_, ?_, ?_⟩ <;> rw [balanced_iff]
  · simp [typeCreate, guarded_balanced, Lock.rank, hk, createRoom_balanced, checks_inRoom,
      checks_log hk3]
  · simp [typeJoin, guarded_balanced, Lock.rank, hk, checks_inRoom, checks_log hk3]
  · simp [typeLeave, guarded_balanced, Lock.rank, hk, roomDeleteIfEmpty_balanced, checks_log hk3]
  · simp [typeKick, guarded_balanced, Lock.rank, hk, roomDeleteIfEmpty_balanced, checks_log hk3]
  · simp [typePromote, guarded_balanced, Lock.rank, hk, checks_inRoom, checks_log hk3]
  · simp [typeCreatePrivate, guarded_balanced, Lock.rank, hk, createRoom_balanced, checks_inRoom,
      moduleStatement_balanced, dbStatement_balanced hk2]
  · simp [typeAccept, guarded_balanced, Lock.rank, hk, checks_inRoom, moduleStatement_balanced]

theorem messageCommands_balanced (hk : k ≤ 1) :
    ∀ p ∈ messageCommands, p.Balanced Lock.rank k := by
  have hk2 : k ≤ 2 := by omega
  have hk3 : k ≤ 3 := by omega
  simp only [messageCommands, List.forall_mem_cons, List.not_mem_nil, false_implies, implies_true,
    and_true]
  refine ⟨?_, ?_, ?_, ?_, ?_⟩ <;> rw [balanced_iff]
  · simp [typeMsg, guarded_balanced, Lock.rank, hk, checks_inRoom, roomAddHistory_balanced,
      checks_log hk3]
  · simp [typeEdit, guarded_balanced, Lock.rank, hk, checks_inRoom, roomChangeMessage_balanced,
      dbStatement_balanced hk2, checks_log hk3]
  · simp [typeDelete, guarded_balanced, Lock.rank, hk, checks_inRoom, roomChangeMessage_balanced,
      dbStatement_balanced hk2, checks_log hk3]
  · simp [typeHistory, guarded_balanced, Lock.rank, hk, dbStatement_balanced hk2]
  · simp [typePm, guarded_balanced, Lock.rank, hk, checks_log hk3]

theorem presenceCommands_balanced (hk : k ≤ 1) :
    ∀ p ∈ presenceCommands, p.Balanced Lock.rank k := by
  simp only [presenceCommands, List.forall_mem_cons, List.not_mem_nil, false_implies, implies_true,
    and_true]
  refine ⟨?_, ?_, ?_, ?_, ?_, ?_⟩ <;> rw [balanced_iff]
  · simp [typeRooms, Lock.rank, hk]
  · simp [typeStatus, guarded_balanced, Lock.rank, hk, checks_inRoom]
  · simp [typeWho, Lock.rank, hk]
  · simp [typeRead, guarded_balanced, Lock.rank, hk, checks_inRoom, receiptMarkRead_balanced]
  · simp [typeTyping, guarded_balanced, Lock.rank, hk, checks_inRoom]
  · simp [typeStopTyping, guarded_balanced, Lock.rank, hk, checks_inRoom]

theorem sessionCommands_balanced (hk : k ≤ 1) :
    ∀ p ∈ sessionCommands, p.Balanced Lock.rank k := by
  have hk2 : k ≤ 2 := by omega
  have hk3 : k ≤ 3 := by omega
  simp only [sessionCommands, List.forall_mem_cons, List.not_mem_nil, false_implies, implies_true,
    and_true]
  refine ⟨?_, ?_, ?_, ?_⟩ <;> rw [balanced_iff]
  · simp [typeLogout, guarded_balanced, Lock.rank, hk, checks_leave, checks_log hk3]
  · simp [typeLogoutAll, guarded_balanced, Lock.rank, hk, checks_leave, checks_log hk3,
      sessionRevokeAll_balanced hk2]
  · simp [typeSessions, sessionListForUser_balanced hk]
  · simp [typeRevokeSession, sessionRevoke_balanced hk2, checks_log hk3]

theorem moderationCommands_balanced (hk : k ≤ 1) :
    ∀ p ∈ moderationCommands, p.Balanced Lock.rank k := by
  have hk2 : k ≤ 2 := by omega
  simp only [moderationCommands, List.forall_mem_cons, List.not_mem_nil, false_implies,
    implies_true, and_true]
  refine ⟨?_, ?_, ?_, ?_, ?_, ?_, ?_, ?_⟩ <;> rw [balanced_iff]
  · simp [typeBlock, moduleStatement_balanced, Lock.rank, hk]
  · simp [typeUnblock, moduleStatement_balanced, Lock.rank, hk]
  · simp [typeMute, moduleStatement_balanced, Lock.rank, hk, permissionCheck_balanced]
  · simp [typeUnmute, moduleStatement_balanced, Lock.rank, hk]
  · simp [typeBan, guarded_balanced, moduleStatement_balanced, Lock.rank, hk,
      permissionCheck_balanced, checks_inRoom]
  · simp [typeDemote, moduleStatement_balanced, Lock.rank, hk, permissionCheck_balanced]
  · simp [typeInvite, guarded_balanced, moduleStatement_balanced, Lock.rank, hk,
      permissionCheck_balanced, dbStatement_balanced hk2]
  · simp [typeDecline, inviteDecline_balanced hk]

theorem commands_balanced (hk : k ≤ 1) : ∀ p ∈ commands, p.Balanced Lock.rank k := by
  simp only [commands, List.forall_mem_append]
  exact ⟨⟨⟨⟨⟨loginCommands_balanced hk, roomCommands_balanced hk⟩, messageCommands_balanced hk⟩,
    presenceCommands_balanced hk⟩, sessionCommands_balanced hk⟩, moderationCommands_balanced hk⟩

theorem processLine_balanced (hk : k ≤ 1) : processLine.Balanced Lock.rank k := by
  rw [balanced_iff]
  simp [processLine, checks_switch (commands_balanced hk)]

theorem disconnectCleanup_balanced (hk : k ≤ 1) : disconnectCleanup.Balanced Lock.rank k := by
  rw [balanced_iff]
  simp (disch := omega) [disconnectCleanup, checks_leave, checks_log,
    guarded_balanced (l := .registry) hk]

theorem handleClient_balanced (c : ConnPtr) : (handleClient c).Balanced Lock.rank 0 := by
  rw [balanced_iff]
  simp [handleClient, Lock.rank, processLine_balanced, disconnectCleanup_balanced]

theorem worker_balanced : worker.Balanced Lock.rank 0 := by
  rw [balanced_iff]
  simp [worker, Lock.rank, handleClient_balanced, log, logWrite_balanced]

theorem runServer_balanced : runServer.Balanced Lock.rank 0 := by
  have haccept : acceptClient.Balanced Lock.rank 0 := by
    rw [balanced_iff]
    simp [acceptClient, checks_log]
  rw [balanced_iff]
  simp [runServer, Lock.rank, haccept, guarded_balanced, checks_log, threadpoolSubmit_balanced,
    threadpoolMaybeShrink_balanced, presenceCleanupStale_balanced]

end Balanced

end ChatServer.Locks
