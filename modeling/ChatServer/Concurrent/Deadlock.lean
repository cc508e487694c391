import ChatServer.Concurrent.HandlerLocks

/-! # The lock discipline of the server

On every path every function releases the locks it takes, and holds neither the
registry lock together with the lock of a room nor the locks of two rooms. The
ranks of the locks bound what a thread waits for, so threads that wait for
nothing but locks never block each other for ever.
-/

namespace ChatServer

open Library LockProg Locks

namespace Locks

/-- The functions of `db.c`. -/
def dbFunctions : List ServerProg :=
  [dbClose, dbSaveMessage, dbLoadHistory, dbLoadHistoryBefore, dbEditMessage, dbDeleteMessage,
    dbRegisterUser, dbVerifyUser, dbUserExists, dbGenerateToken, dbCreateSession,
    dbValidateSession, dbDeleteSession, dbCleanupExpiredSessions, dbCreateRoom, dbDeleteRoom,
    dbLoadRooms, dbSearchMessages]

/-- The functions of the modules that the handlers call. -/
def moduleFunctions : List ServerProg :=
  [ensureSessionDb, ensureDb .block, ensureDb .perm, ensureDb .invite, blockAdd, blockRemove,
    muteAdd, muteRemove, banAdd, permissionSetRole, permissionGetRole, permissionCheck,
    inviteCreate, inviteAccept, inviteFind, inviteDecline, receiptMarkRead, sessionRevoke,
    sessionRevokeAll, sessionListForUser, presenceTypingStart, presenceTypingStop,
    presenceCleanupStale]

/-- The functions of `registry.c`. -/
def registryFunctions (r : RoomPtr) : List ServerProg :=
  [registryDestroy, registryEnsureInit, findRoom, createRoom, roomAddMember r, roomRemoveMember r,
    roomBroadcast r, roomAddHistory r, roomSendHistory r, roomFindMessage r, roomEditMessage r,
    roomDeleteMessage r, deleteRoom, roomDeleteIfEmpty r, notifyAllClients, findClient,
    createClient, createClientForce, deleteClient]

/-- The functions of the pool, and those a thread runs. -/
def threadFunctions (c : ConnPtr) : List ServerProg :=
  [threadpoolSubmit, threadpoolMaybeShrink, threadpoolDestroy, processLine, disconnectCleanup,
    handleClient c, worker, runServer]

def functions (r : RoomPtr) (c : ConnPtr) : List ServerProg :=
  logWrite :: dbFunctions ++ moduleFunctions ++ registryFunctions r ++ commands ++
    threadFunctions c

section Balanced

theorem dbFunctions_balanced : ∀ p ∈ dbFunctions, p.Balanced Lock.rank 0 := by
  simp [dbFunctions, guarded_balanced, dbStatement_balanced, dbSaveMessage_balanced,
    dbVerifyUser_balanced, dbGenerateToken_balanced, dbCreateSession_balanced,
    dbValidateSession_balanced, dbCleanupExpiredSessions_balanced]

theorem moduleFunctions_balanced : ∀ p ∈ moduleFunctions, p.Balanced Lock.rank 0 := by
  simp [moduleFunctions, guarded_balanced, ensureSessionDb_balanced, ensureDb_balanced,
    moduleStatement_balanced, permissionCheck_balanced, inviteDecline_balanced,
    receiptMarkRead_balanced, sessionRevoke_balanced, sessionRevokeAll_balanced,
    sessionListForUser_balanced, presenceCleanupStale_balanced]

theorem registryFunctions_balanced (r : RoomPtr) :
    ∀ p ∈ registryFunctions r, p.Balanced Lock.rank 0 := by
  simp [registryFunctions, guarded_balanced, registryEnsureInit_balanced, createRoom_balanced,
    roomAddHistory_balanced, roomChangeMessage_balanced, dbStatement_balanced,
    roomDeleteIfEmpty_balanced, createClient_balanced]

theorem threadFunctions_balanced (c : ConnPtr) :
    ∀ p ∈ threadFunctions c, p.Balanced Lock.rank 0 := by
  simp [threadFunctions, guarded_balanced, threadpoolSubmit_balanced,
    threadpoolMaybeShrink_balanced, processLine_balanced, disconnectCleanup_balanced,
    handleClient_balanced, worker_balanced, runServer_balanced]

theorem functions_balanced (r : RoomPtr) (c : ConnPtr) :
    ∀ p ∈ functions r c, p.Balanced Lock.rank 0 := by
  simp only [functions, List.forall_mem_append, List.forall_mem_cons]
  exact ⟨⟨⟨⟨⟨logWrite_balanced (by omega), dbFunctions_balanced⟩, moduleFunctions_balanced⟩,
    registryFunctions_balanced r⟩, commands_balanced (by omega)⟩, threadFunctions_balanced c⟩

end Balanced

end Locks

/-- A path that releases what it takes, and never holds locks that must be apart. -/
structure Disciplined (ops : List (LockOp Lock)) : Prop where
  released : heldAfter [] ops = []
  owned : ∀ pre l, pre ++ [.release l] <+: ops → ∃ shared, (l, shared) ∈ heldAfter [] pre
  once : ∀ pre, pre <+: ops → ((heldAfter [] pre).map Prod.fst).Nodup
  registryApart : ∀ pre, pre <+: ops → ∀ r shared shared',
    ¬((Lock.registry, shared) ∈ heldAfter [] pre ∧ (Lock.room r, shared') ∈ heldAfter [] pre)
  roomsApart : ∀ pre, pre <+: ops → ∀ r r' shared shared',
    (Lock.room r, shared) ∈ heldAfter [] pre →
    (Lock.room r', shared') ∈ heldAfter [] pre → r = r'

namespace Disciplined

variable {ops : List (LockOp Lock)}

theorem of_ordered (hordered : Ordered Lock.rank [] ops) (hreleased : heldAfter [] ops = []) :
    Disciplined ops := by
  have hdescending : ∀ pre, pre <+: ops → Descending Lock.rank (heldAfter [] pre) := by
    rintro pre ⟨post, rfl⟩
    exact Descending.heldAfter List.Pairwise.nil (ordered_append.mp hordered).1
  refine ⟨hreleased, ?_, fun pre hpre => ?_, ?_, ?_⟩
  · rintro pre l ⟨post, rfl⟩
    rw [List.append_assoc, ordered_append] at hordered
    exact hordered.2.1
  · refine List.pairwise_map.mpr ((hdescending pre hpre).imp fun hlt heq => ?_)
    rw [heq] at hlt
    exact Nat.lt_irrefl _ hlt
  · rintro pre hpre r shared shared' ⟨hregistry, hroom⟩
    exact nomatch (hdescending pre hpre).eq_of_rank_eq hregistry hroom rfl
  · intro pre hpre r r' shared shared' hr hr'
    have heq := (hdescending pre hpre).eq_of_rank_eq hr hr' rfl
    exact Lock.room.inj (Prod.mk.inj heq).1

end Disciplined

theorem Lock.rank_le (l : Lock) : l.rank ≤ 3 := by
  cases l <;> simp [Lock.rank]

/--
Every path through every function is disciplined. Whatever threads run, workers
and the server loop, and however their operations interleave: if a thread holds
a lock, then a thread that holds a lock can take its next step.
-/
theorem locks_disciplined :
    (∀ r c, ∀ p ∈ functions r c, ∀ ops ret, Path p ops ret → Disciplined ops) ∧
    ∀ (ι : Type) [DecidableEq ι] (todo : ι → List (LockOp Lock)),
      (∀ i, ∃ r c, ∃ p ∈ functions r c, ∃ ret, Path p (todo i) ret) →
      ∀ s, (LockThreads.start todo).Reachable s → (∃ i, s.held i ≠ []) →
        ∃ i, s.held i ≠ [] ∧ ∃ s', s.Step i s' := by
  constructor
  · intro r c p hp ops ret hpath
    obtain ⟨hordered, hreleased⟩ := (functions_balanced r c p hp).path hpath
    exact .of_ordered hordered hreleased
  · intro ι _ todo hpaths s hs hheld
    have hsound : (LockThreads.start todo).Sound Lock.rank := by
      refine ⟨fun i => .nil, fun i => ?_, fun i => ?_⟩
      all_goals
        obtain ⟨r, c, p, hp, ret, hpath⟩ := hpaths i
        obtain ⟨hordered, hreleased⟩ := (functions_balanced r c p hp).path hpath
      · exact hordered
      · exact hreleased
    exact (hsound.reachable hs).progress Lock.rank_le hheld

/-- A worker that takes one job, for a connection on which nothing has come in. -/
def idleJob : List (LockOp Lock) :=
  [.acquire .pool false, .release .pool, .acquire (.conn 5) false, .release (.conn 5)]

theorem path_idleJob : Path worker idleJob false := by
  have hclient : Path (handleClient 5) [.acquire (.conn 5) false, .release (.conn 5)] false :=
    .seq .acquire (.seq .loop_done (.seq (.alt_right .skip) (.seq .release .skip)))
  have hjob : Path (pick fun c => call (handleClient c))
      [.acquire (.conn 5) false, .release (.conn 5)] false := .pick 5 (.call hclient)
  exact .loop_next (.seq .acquire (.seq .loop_done (.seq (.alt_right .skip)
    (.seq (.alt_right .skip) (.seq .release (.seq hjob (.seq (.alt_right .skip) .skip)))))))
    .loop_done

/-- Two workers of which one has taken the lock of the pool. -/
theorem locks_disciplined_workers :
    Disciplined idleJob ∧ ∃ s : LockThreads Bool Lock,
      (LockThreads.start fun _ => idleJob).Reachable s ∧ (s.held true).map Prod.fst = [.pool] ∧
        ∃ i, s.held i ≠ [] ∧ ∃ s', s.Step i s' := by
  have hworker : worker ∈ functions 0 5 := by simp [functions, threadFunctions]
  have hnext : (LockThreads.start fun _ : Bool => idleJob).todo true =
      .acquire .pool false :: idleJob.tail := rfl
  have hstep : (LockThreads.start fun _ : Bool => idleJob).Step true _ :=
    .next hnext fun _ _ => nofun
  have hreach : (LockThreads.start fun _ : Bool => idleJob).Reachable _ :=
    Relation.ReflTransGen.single ⟨true, hstep⟩
  refine ⟨locks_disciplined.1 0 5 worker hworker _ _ path_idleJob, _, hreach, rfl, ?_⟩
  exact locks_disciplined.2 Bool (fun _ => idleJob)
    (fun _ => ⟨0, 5, worker, hworker, false, path_idleJob⟩) _ hreach ⟨true, nofun⟩

end ChatServer
