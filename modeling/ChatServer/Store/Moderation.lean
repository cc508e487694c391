import Mathlib.Data.List.Sort
import ChatServer.Store.Database

/-! # Sessions, blocks, mutes, bans, roles, invitations and receipts

The modules that keep their own handle on the database. Each function returns
its success code as a Boolean, beside the database it leaves.
-/

namespace ChatServer

open Library

variable (env : Env)

inductive SessionErr where
  | ok | notFound | expired | db | limit | invalid
  deriving DecidableEq, Repr

def maxSessionsPerUser : ℕ := 16

def sessionRevoke (token : Text) (db : Database) : SessionErr × Database :=
  match dbDeleteSession env token db with
  | (true, db') => (.ok, db')
  | (false, db') => (.db, db')

/-- `session_revoke_all`, which runs the cleanup of expired sessions whoever the user is. -/
def sessionRevokeAll (_username : Text) (db : Database) : ℤ × Database :=
  dbCleanupExpiredSessions env db

/-- `session_list_for_user`: the unexpired sessions of a user, newest first. -/
def sessionListForUser (username : Text) (maxOut : ℕ) (db : Database) : List Session :=
  let rows := db.sessions.rows.filter fun s => s.username = username ∧ env.now < s.expiresAt
  let sorted := rows.insertionSort fun s t => t.createdAt ≤ s.createdAt
  ((env.sql .listSessions).rows (sorted.take maxOut)).map fun s =>
    { s with token := strncpy 65 s.token, username := strncpy maxUsernameLen s.username }

def blockAdd (blocker blocked : Text) (db : Database) : Bool × Database :=
  if blocker = blocked then (false, db)
  else match env.sql .blockAdd with
  | .done => (true, { db with blocks := db.blocks.insertOrIgnore { blocker, blocked } })
  | _ => (false, db)

def blockRemove (blocker blocked : Text) (db : Database) : Bool × Database :=
  match env.sql .blockRemove with
  | .done =>
    let p : Block → Bool := fun b => b.blocker = blocker ∧ b.blocked = blocked
    (0 < db.blocks.changes p, { db with blocks := db.blocks.delete p })
  | _ => (false, db)

def muteAdd (roomName mutedBy mutedUser : Text) (db : Database) : Bool × Database :=
  match env.sql .muteAdd with
  | .done =>
    let row : Sanction := { roomName, imposedBy := mutedBy, user := mutedUser }
    (true, { db with mutes := db.mutes.insertOrReplace row })
  | _ => (false, db)

def muteRemove (roomName mutedUser : Text) (db : Database) : Bool × Database :=
  match env.sql .muteRemove with
  | .done =>
    let p : Sanction → Bool := fun s => s.roomName = roomName ∧ s.user = mutedUser
    (0 < db.mutes.changes p, { db with mutes := db.mutes.delete p })
  | _ => (false, db)

def banAdd (roomName bannedBy bannedUser : Text) (db : Database) : Bool × Database :=
  match env.sql .banAdd with
  | .done =>
    let row : Sanction := { roomName, imposedBy := bannedBy, user := bannedUser }
    (true, { db with bans := db.bans.insertOrReplace row })
  | _ => (false, db)

/-- `ban_check`, which no handler calls. -/
def banCheck (roomName bannedUser : Text) (db : Database) : Bool :=
  ((env.sql .banCheck).rows
    (db.bans.rows.filter fun s => s.roomName = roomName ∧ s.user = bannedUser)) ≠ []

def RoomRole.rank : RoomRole → ℕ
  | member => 0
  | moderator => 1
  | admin => 2
  | owner => 3

/-- `role - 1`, for a role above member. -/
def RoomRole.lower : RoomRole → RoomRole
  | owner => admin
  | admin => moderator
  | _ => member

def permissionSetRole (roomName username : Text) (role : RoomRole) (db : Database) : Database :=
  match env.sql .setRole with
  | .done => { db with roomRoles := db.roomRoles.insertOrReplace { roomName, username, role } }
  | _ => db

def permissionGetRole (roomName username : Text) (db : Database) : RoomRole :=
  match (env.sql .getRole).rows
    (db.roomRoles.rows.filter fun r => r.roomName = roomName ∧ r.username = username) with
  | r :: _ => r.role
  | [] => .member

inductive Action where
  | kick | ban | mute | demote | msg | invite
  deriving DecidableEq, Repr

def permissionCheck (roomName username : Text) (action : Action) (db : Database) : Bool :=
  let role := permissionGetRole env roomName username db
  match action with
  | .msg => true
  | .invite | .kick | .mute => RoomRole.admin.rank ≤ role.rank
  | .ban | .demote => RoomRole.owner.rank ≤ role.rank

def inviteCreate (roomName inviter invitee : Text) (db : Database) : Bool × Database :=
  match env.sql .inviteCreate with
  | .done => (true, { db with invites := db.invites.insertOrIgnore { roomName, inviter, invitee } })
  | _ => (false, db)

def inviteAccept (roomName invitee : Text) (db : Database) : Bool × Database :=
  match env.sql .inviteAccept with
  | .done =>
    let p : Invite → Bool := fun i => i.roomName = roomName ∧ i.invitee = invitee
    (0 < db.invites.changes p, { db with invites := db.invites.delete p })
  | _ => (false, db)

def inviteDecline (roomName invitee : Text) (db : Database) : Bool × Database :=
  inviteAccept env roomName invitee db

def inviteFind (roomName invitee : Text) (db : Database) : Bool :=
  ((env.sql .inviteFind).rows
    (db.invites.rows.filter fun i => i.roomName = roomName ∧ i.invitee = invitee)) ≠ []

def receiptMarkRead (messageId : ℤ) (reader : Text) (db : Database) : Bool × Database :=
  if messageId ≤ 0 then (false, db)
  else match env.sql .markRead with
  | .done =>
    (true, { db with readReceipts := db.readReceipts.insertOrIgnore { messageId, reader } })
  | _ => (false, db)

end ChatServer
