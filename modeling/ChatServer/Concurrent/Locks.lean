import ChatServer.Core.Env
import ChatServer.Library.LockProg
import ChatServer.Pool.ThreadPool

/-! # The locks of the server

The functions of the logger, the database and the modules, reduced to their
operations on locks. Every condition is left open. What a function does while it
holds its own lock is at most to log, so its lock ranks below that of the log.
-/

namespace ChatServer

open Library LockProg

inductive Lock where
  | conn (c : ConnPtr)
  | pool
  | registry
  | room (r : RoomPtr)
  | session | receipt | block | perm | invite | typing
  | db
  | log
  deriving DecidableEq

/-- A lock is taken under locks of lower ranks only. -/
abbrev Lock.rank : Lock → ℕ
  | .conn _ => 0
  | .pool | .registry | .room _ => 1
  | .session | .receipt | .block | .perm | .invite | .typing => 1
  | .db => 2
  | .log => 3

/-- A function of the server; the rooms and the connections it meets are left open too. -/
abbrev ServerProg := LockProg Lock ℕ

namespace Locks

/-- `return` from a critical section. -/
def unlockRet (l : Lock) : ServerProg := block [release l, ret]

/-- A function with one section, left early or not after some tests before it and in it. -/
def guarded (guards : ℕ) (l : Lock) (shared : Bool) (exits : ℕ) : ServerProg :=
  block
    [block (List.replicate guards (maybe ret)), acquire l shared,
      block (List.replicate exits (maybe (unlockRet l))), release l]

/-- A message below the level of the log takes no lock. -/
abbrev logWrite : ServerProg := guarded 1 .log false 0

/-- The macros `LOG_INFO`, `LOG_WARN` and so on. -/
def log : ServerProg := call logWrite

/-- The section in which a statement is prepared, run and finalized. -/
def statement (l : Lock) (unprepared rest : ServerProg) : ServerProg :=
  block
    [acquire l false, maybe (block [unprepared, unlockRet l]), rest, release l]

/-- A function of `db.c` that checks its arguments and runs one statement. -/
def dbStatement (logged : Bool) : ServerProg :=
  block [maybe ret, statement .db (if logged then log else skip) skip]

def dbSaveMessage : ServerProg := block [maybe ret, statement .db log (maybe log)]

abbrev dbLoadHistory : ServerProg := dbStatement true

abbrev dbLoadHistoryBefore : ServerProg := dbStatement true

abbrev dbEditMessage : ServerProg := dbStatement false

abbrev dbDeleteMessage : ServerProg := dbStatement false

abbrev dbRegisterUser : ServerProg := dbStatement false

/-- A user who is not found is reported from within the section. -/
def dbVerifyUser : ServerProg := block [maybe ret, statement .db skip (maybe (unlockRet .db))]

abbrev dbUserExists : ServerProg := dbStatement false

abbrev dbDeleteSession : ServerProg := dbStatement false

abbrev dbCreateRoom : ServerProg := dbStatement false

abbrev dbDeleteRoom : ServerProg := dbStatement false

abbrev dbLoadRooms : ServerProg := dbStatement false

abbrev dbSearchMessages : ServerProg := dbStatement true

def dbGenerateToken : ServerProg :=
  block [maybe ret, maybe (block [log, ret])]

/-- A token that is taken already leads to another attempt. -/
def dbCreateSession : ServerProg :=
  loop (block
    [maybe ret, call dbGenerateToken, maybe ret,
      acquire .db false, maybe (block [release .db, log, ret]), release .db,
      alt log (block [maybe (block [log, ret]), ret])])

def dbValidateSession : ServerProg :=
  block
    [maybe ret, maybe ret,
      acquire .db false, maybe (unlockRet .db), maybe (unlockRet .db),
      maybe (block [release .db, call dbDeleteSession, ret]), release .db]

def dbCleanupExpiredSessions : ServerProg :=
  block [maybe ret, acquire .db false, maybe log, release .db]

abbrev dbClose : ServerProg := guarded 0 .db false 0

def ensureSessionDb : ServerProg :=
  block
    [maybe ret, acquire .session false, maybe (unlockRet .session),
      maybe (block [log, unlockRet .session]), release .session]

/-- `ensure_block_db`, `ensure_perm_db` and `ensure_invite_db`. -/
def ensureDb (l : Lock) : ServerProg :=
  block
    [maybe ret, acquire l false, maybe (unlockRet l), maybe (block [log, unlockRet l]),
      maybe (block [log, unlockRet l]), release l, log]

/-- A function of a module that opens its database if needed and runs one statement. -/
def moduleStatement (l : Lock) : ServerProg :=
  block [maybe ret, call (ensureDb l), maybe ret, statement l skip skip]

abbrev blockAdd : ServerProg := moduleStatement .block

abbrev blockRemove : ServerProg := moduleStatement .block

abbrev muteAdd : ServerProg := moduleStatement .block

abbrev muteRemove : ServerProg := moduleStatement .block

abbrev banAdd : ServerProg := moduleStatement .block

abbrev permissionSetRole : ServerProg := moduleStatement .perm

abbrev permissionGetRole : ServerProg := moduleStatement .perm

def permissionCheck : ServerProg := call permissionGetRole

abbrev inviteCreate : ServerProg := moduleStatement .invite

abbrev inviteAccept : ServerProg := moduleStatement .invite

abbrev inviteFind : ServerProg := moduleStatement .invite

def inviteDecline : ServerProg := call inviteAccept

def receiptMarkRead : ServerProg := block [maybe ret, statement .receipt log skip]

def sessionRevoke : ServerProg :=
  block [maybe ret, call dbDeleteSession, maybe (block [log, ret])]

def sessionRevokeAll : ServerProg :=
  block [maybe ret, call dbCleanupExpiredSessions, log]

def sessionListForUser : ServerProg :=
  block [maybe ret, call ensureSessionDb, maybe ret, statement .session log skip]

abbrev presenceTypingStart : ServerProg := guarded 1 .typing false 0

abbrev presenceTypingStop : ServerProg := guarded 1 .typing false 0

def presenceCleanupStale : ServerProg :=
  block [acquire .typing false, loop (maybe log), release .typing]

section Balanced

variable {k : ℕ} {l : Lock}

theorem checks_guards (guards : ℕ) {next : List (Lock × Bool) → Prop} :
    (block (List.replicate guards (maybe ret)) : ServerProg).Checks Lock.rank k [] next ↔
      next [] := by
  induction guards with
  | zero => rfl
  | succ n ih => simp [List.replicate_succ, ih]

@[simp] theorem checks_unlockRet {shared : Bool} {next : List (Lock × Bool) → Prop} :
    (unlockRet l).Checks Lock.rank k [(l, shared)] next := by
  simp [unlockRet]

theorem checks_exits (exits : ℕ) {shared : Bool} {next : List (Lock × Bool) → Prop} :
    (block (List.replicate exits (maybe (unlockRet l)))).Checks Lock.rank k [(l, shared)] next ↔
      next [(l, shared)] := by
  induction exits with
  | zero => rfl
  | succ n ih => simp [List.replicate_succ, ih]

@[simp] theorem checks_guarded {guards exits : ℕ} {shared : Bool}
    {next : List (Lock × Bool) → Prop} :
    (guarded guards l shared exits).Checks Lock.rank k [] next ↔ k ≤ l.rank ∧ next [] := by
  simp [guarded, checks_guards, checks_exits]

theorem guarded_balanced {guards exits : ℕ} {shared : Bool} (hk : k ≤ l.rank) :
    (guarded guards l shared exits).Balanced Lock.rank k := by
  rw [balanced_iff]
  simp [hk]

theorem logWrite_balanced (hk : k ≤ 3) : logWrite.Balanced Lock.rank k := guarded_balanced hk

theorem dbStatement_balanced (hk : k ≤ 2) (logged : Bool) :
    (dbStatement logged).Balanced Lock.rank k := by
  rw [balanced_iff]
  cases logged with
  | false => simp [dbStatement, statement, Lock.rank, hk]
  | true =>
    simp (disch := omega) [dbStatement, statement, log, Lock.rank, hk,
      logWrite_balanced]

theorem dbSaveMessage_balanced (hk : k ≤ 2) : dbSaveMessage.Balanced Lock.rank k := by
  rw [balanced_iff]
  simp (disch := omega) [dbSaveMessage, statement, log, Lock.rank, hk,
    logWrite_balanced]

theorem dbVerifyUser_balanced (hk : k ≤ 2) : dbVerifyUser.Balanced Lock.rank k := by
  rw [balanced_iff]
  simp [dbVerifyUser, statement, Lock.rank, hk]

theorem dbGenerateToken_balanced (hk : k ≤ 3) : dbGenerateToken.Balanced Lock.rank k := by
  rw [balanced_iff]
  simp [dbGenerateToken, log, logWrite_balanced hk]

theorem dbCreateSession_balanced (hk : k ≤ 2) : dbCreateSession.Balanced Lock.rank k := by
  rw [balanced_iff]
  simp (disch := omega) [dbCreateSession, log, Lock.rank, hk, logWrite_balanced,
    dbGenerateToken_balanced]

theorem dbValidateSession_balanced (hk : k ≤ 2) : dbValidateSession.Balanced Lock.rank k := by
  rw [balanced_iff]
  simp (disch := omega) [dbValidateSession, Lock.rank, hk, dbStatement_balanced]

theorem dbCleanupExpiredSessions_balanced (hk : k ≤ 2) :
    dbCleanupExpiredSessions.Balanced Lock.rank k := by
  rw [balanced_iff]
  simp (disch := omega) [dbCleanupExpiredSessions, log, Lock.rank, hk, logWrite_balanced]

theorem ensureSessionDb_balanced (hk : k ≤ 1) : ensureSessionDb.Balanced Lock.rank k := by
  rw [balanced_iff]
  simp (disch := omega) [ensureSessionDb, log, Lock.rank, hk, logWrite_balanced]

theorem ensureDb_balanced (hl : l.rank = 1) (hk : k ≤ 1) : (ensureDb l).Balanced Lock.rank k := by
  rw [balanced_iff]
  simp (disch := omega) [ensureDb, log, hl, hk, logWrite_balanced]

theorem moduleStatement_balanced (hl : l.rank = 1) (hk : k ≤ 1) :
    (moduleStatement l).Balanced Lock.rank k := by
  rw [balanced_iff]
  simp [moduleStatement, statement, hl, hk, ensureDb_balanced]

theorem permissionCheck_balanced (hk : k ≤ 1) : permissionCheck.Balanced Lock.rank k := by
  rw [balanced_iff]
  simp [permissionCheck, moduleStatement_balanced (l := .perm) rfl hk]

theorem inviteDecline_balanced (hk : k ≤ 1) : inviteDecline.Balanced Lock.rank k := by
  rw [balanced_iff]
  simp [inviteDecline, moduleStatement_balanced (l := .invite) rfl hk]

theorem receiptMarkRead_balanced (hk : k ≤ 1) : receiptMarkRead.Balanced Lock.rank k := by
  rw [balanced_iff]
  simp (disch := omega) [receiptMarkRead, statement, log, Lock.rank, hk,
    logWrite_balanced]

theorem sessionRevoke_balanced (hk : k ≤ 2) : sessionRevoke.Balanced Lock.rank k := by
  rw [balanced_iff]
  simp (disch := omega) [sessionRevoke, log, dbStatement_balanced, logWrite_balanced]

theorem sessionRevokeAll_balanced (hk : k ≤ 2) : sessionRevokeAll.Balanced Lock.rank k := by
  rw [balanced_iff]
  simp (disch := omega) [sessionRevokeAll, log, dbCleanupExpiredSessions_balanced,
    logWrite_balanced]

theorem sessionListForUser_balanced (hk : k ≤ 1) : sessionListForUser.Balanced Lock.rank k := by
  rw [balanced_iff]
  simp (disch := omega) [sessionListForUser, statement, log, Lock.rank, hk,
    ensureSessionDb_balanced, logWrite_balanced]

theorem presenceCleanupStale_balanced (hk : k ≤ 1) :
    presenceCleanupStale.Balanced Lock.rank k := by
  rw [balanced_iff]
  simp (disch := omega) [presenceCleanupStale, log, Lock.rank, hk, logWrite_balanced]

end Balanced

end Locks

end ChatServer
