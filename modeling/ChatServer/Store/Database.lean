import Mathlib.Data.List.DropRight
import ChatServer.Core.Env
import ChatServer.Library.Reverse
import ChatServer.Library.Table
import ChatServer.Protocol.Words

/-! # The database

The tables of `chat.db` and the functions of `db.c`. A statement that fails
leaves its table unchanged and the function returns its error code.
-/

namespace ChatServer

open Library

/-- A message as the program holds it: `message_t`, and `db_message_t` with the same fields. -/
structure Message where
  id : ℤ
  sender : Text
  text : Text
  timestamp : ℤ
  deleted : Bool
  editedAt : ℤ
  deriving DecidableEq, Repr

/-- A row of the table `messages`. -/
structure MessageRow where
  id : ℤ
  room : Text
  sender : Text
  text : Text
  timestamp : ℤ
  deleted : Bool
  editedAt : ℤ
  deriving DecidableEq, Repr

/-- The table `messages`: rows in the order of their ids, and the last id AUTOINCREMENT gave. -/
structure Messages where
  rows : List MessageRow
  seq : ℤ
  sorted : rows.Pairwise fun r s => r.id < s.id
  ids : ∀ r ∈ rows, r.id ≤ seq
  seq_nonneg : 0 ≤ seq

structure User where
  username : Text
  passwordHash : Text
  deriving DecidableEq, Repr

structure Session where
  token : Text
  username : Text
  createdAt : ℤ
  expiresAt : ℤ
  deriving DecidableEq, Repr

structure RoomRow where
  name : Text
  owner : Text
  createdAt : ℤ
  deriving DecidableEq, Repr

structure Block where
  blocker : Text
  blocked : Text
  deriving DecidableEq, Repr

/-- A row of `mutes` or of `bans`. -/
structure Sanction where
  roomName : Text
  imposedBy : Text
  user : Text
  deriving DecidableEq, Repr

inductive RoomRole where
  | member | moderator | admin | owner
  deriving DecidableEq, Repr

structure RoleRow where
  roomName : Text
  username : Text
  role : RoomRole
  deriving DecidableEq, Repr

structure Invite where
  roomName : Text
  inviter : Text
  invitee : Text
  deriving DecidableEq, Repr

structure Receipt where
  messageId : ℤ
  reader : Text
  deriving DecidableEq, Repr

def Sanction.key (s : Sanction) : Text × Text := (s.roomName, s.user)
def RoleRow.key (r : RoleRow) : Text × Text := (r.roomName, r.username)
def Invite.key (i : Invite) : Text × Text := (i.roomName, i.invitee)

structure Database where
  messages : Messages
  users : Table User.username
  sessions : Table Session.token
  rooms : Table RoomRow.name
  blocks : Table (id : Block → Block)
  mutes : Table Sanction.key
  bans : Table Sanction.key
  roomRoles : Table RoleRow.key
  invites : Table Invite.key
  readReceipts : Table (id : Receipt → Receipt)

namespace Messages

def empty : Messages := ⟨[], 0, .nil, by simp, Int.le_refl 0⟩

/-- Insert a row under an id above every earlier one. -/
def insert (t : Messages) (gap : ℕ) (row : MessageRow) : Messages where
  rows := t.rows ++ [{ row with id := t.seq + 1 + gap }]
  seq := t.seq + 1 + gap
  sorted := by
    refine List.pairwise_append.mpr ⟨t.sorted, List.pairwise_singleton _ _, ?_⟩
    intro r hr s hs
    obtain rfl := List.mem_singleton.mp hs
    have := t.ids r hr
    simp only
    omega
  ids := by
    intro r hr
    rcases List.mem_append.mp hr with hr | hr
    · have := t.ids r hr
      omega
    · obtain rfl := List.mem_singleton.mp hr
      exact Int.le_refl _
  seq_nonneg := by have h := t.seq_nonneg; omega

/-- Update the rows that meet a condition, keeping their ids. -/
def update (t : Messages) (p : MessageRow → Bool) (f : MessageRow → MessageRow)
    (hf : ∀ r, (f r).id = r.id) : Messages where
  rows := t.rows.map fun r => if p r then f r else r
  seq := t.seq
  sorted := by
    refine List.pairwise_map.mpr (t.sorted.imp fun {r s} h => ?_)
    split_ifs <;> simpa only [hf] using h
  ids := by
    intro r hr
    obtain ⟨s, hs, rfl⟩ := List.mem_map.mp hr
    split_ifs <;> simpa only [hf] using t.ids s hs
  seq_nonneg := t.seq_nonneg

/-- The rows of a room. -/
def ofRoom (t : Messages) (room : Text) : List MessageRow := t.rows.filter fun r => r.room = room

end Messages

def Database.empty : Database where
  messages := .empty
  users := .empty _
  sessions := .empty _
  rooms := .empty _
  blocks := .empty _
  mutes := .empty _
  bans := .empty _
  roomRoles := .empty _
  invites := .empty _
  readReceipts := .empty _

variable (env : Env)

/-- Copy a result row into `db_message_t`. -/
def MessageRow.load (r : MessageRow) : Message where
  id := r.id
  sender := strncpy maxUsernameLen r.sender
  text := strncpy maxTextLen r.text
  timestamp := r.timestamp
  deleted := r.deleted
  editedAt := r.editedAt

/-- `db_save_message`: the row id, or -1. -/
def dbSaveMessage (room sender text : Text) (db : Database) : ℤ × Database :=
  match env.sql .saveMessage with
  | .done =>
    let row :=
      { id := 0, room, sender, text, timestamp := env.now, deleted := false, editedAt := 0 }
    let messages := db.messages.insert env.rowidGap row
    (messages.seq, { db with messages })
  | _ => (-1, db)

/-- `db_load_history`: the last `limit` rows of the room, oldest first. -/
def dbLoadHistory (room : Text) (limit : ℕ) (db : Database) : List Message :=
  if limit = 0 then []
  else (env.sql .loadHistory).rows (((db.messages.ofRoom room).rtake limit).map MessageRow.load)

/--
`db_load_history_before`: the `limit` newest rows of the room, below an id when
that is positive, reversed to oldest first, and the smallest id among them.
-/
def dbLoadHistoryBefore (room : Text) (beforeId : ℤ) (limit : ℕ) (db : Database) :
    List Message × ℤ :=
  if limit = 0 then ([], 0)
  else
    let rows := (db.messages.ofRoom room).filter fun r => beforeId ≤ 0 ∨ r.id < beforeId
    let tmp := (((env.sql .loadHistoryBefore).rows (rows.reverse.take limit)).take
      (min limit 256)).map MessageRow.load
    (reverseInPlace tmp, if 0 < tmp.length then runningMin Message.id tmp else 0)

/-- What the two loops compute: the page in the order of its ids, and its first id. -/
theorem dbLoadHistoryBefore_eq (room : Text) (beforeId : ℤ) (limit : ℕ) (db : Database) :
    dbLoadHistoryBefore env room beforeId limit db =
      if limit = 0 then ([], 0)
      else
        let rows := (db.messages.ofRoom room).filter fun r => beforeId ≤ 0 ∨ r.id < beforeId
        let page := (((env.sql .loadHistoryBefore).rows (rows.reverse.take limit)).take
          (min limit 256)).reverse.map MessageRow.load
        (page, (page.head?.map Message.id).getD 0) := by
  unfold dbLoadHistoryBefore
  split_ifs with hlimit
  · rfl
  · simp only
    generalize hsel : ((env.sql .loadHistoryBefore).rows _).take (min limit 256) = selected
    have hsorted : (selected.map MessageRow.load).Pairwise fun m m' => m'.id < m.id := by
      refine List.pairwise_map.mpr ?_
      rw [← hsel]
      refine List.Pairwise.sublist ((List.take_sublist _ _).trans ((Sql.rows_sublist _ _).trans
        (List.take_sublist _ _))) (List.pairwise_reverse.mpr ?_)
      exact db.messages.sorted.sublist (List.filter_sublist.trans List.filter_sublist)
    rw [reverseInPlace_eq, runningMin_of_descending hsorted, List.map_reverse, List.head?_reverse]
    cases selected <;> rfl

/-- `db_edit_message`. -/
def dbEditMessage (msgId : ℤ) (newText : Text) (db : Database) : Database :=
  if msgId ≤ 0 then db
  else match env.sql .editMessage with
  | .done =>
    let messages := db.messages.update (fun r => r.id = msgId ∧ r.deleted = false)
      (fun r => { r with text := newText, editedAt := env.now }) (fun _ => rfl)
    { db with messages }
  | _ => db

/-- `db_delete_message`. -/
def dbDeleteMessage (msgId : ℤ) (db : Database) : Database :=
  if msgId ≤ 0 then db
  else match env.sql .deleteMessage with
  | .done =>
    let messages := db.messages.update (fun r => r.id = msgId ∧ r.deleted = false)
      (fun r => { r with deleted := true, text := "[deleted]".toList }) (fun _ => rfl)
    { db with messages }
  | _ => db

/-- The results of `db_register_user`: 0, -1 and -2. -/
inductive Registered where
  | inserted | taken | error
  deriving DecidableEq, Repr

def dbRegisterUser (username password : Text) (db : Database) : Registered × Database :=
  match env.sql .registerUser with
  | .done =>
    match db.users.insert? { username, passwordHash := env.sha256Hex password } with
    | some users => (.inserted, { db with users })
    | none => (.taken, db)
  | _ => (.error, db)

/-- The results of `db_verify_user`: 0, -1, -2 and -3. -/
inductive Verified where
  | ok | unknownUser | wrongPassword | error
  deriving DecidableEq, Repr

def dbVerifyUser (username password : Text) (db : Database) : Verified :=
  if env.sql .verifyUser = .prepareFailed then .error
  else match (env.sql .verifyUser).rows (db.users.rows.filter fun u => u.username = username) with
  | [] => .unknownUser
  | u :: _ => if u.passwordHash = env.sha256Hex password then .ok else .wrongPassword

def dbUserExists (username : Text) (db : Database) : Bool :=
  ((env.sql .userExists).rows (db.users.rows.filter fun u => u.username = username)) ≠ []

def sessionExpireSec : ℤ := 86400

/-- The loop of `db_create_session` over the tokens the generator yields. -/
def insertSession (username : Text) : List Text → Database → Option Text × Database
  | [], db => (none, db)
  | token :: tokens, db =>
    match env.sql .createSession with
    | .done =>
      match db.sessions.insert?
          { token, username, createdAt := env.now, expiresAt := env.now + sessionExpireSec } with
      | some sessions => (some token, { db with sessions })
      | none => insertSession username tokens db
    | _ => (none, db)

/-- `db_create_session`: the new token, `none` for -1. -/
def dbCreateSession (username : Text) (db : Database) : Option Text × Database :=
  insertSession env username env.tokens db

/-- `db_delete_session`, with the result 0 as `true`. -/
def dbDeleteSession (token : Text) (db : Database) : Bool × Database :=
  match env.sql .deleteSession with
  | .done => (true, { db with sessions := db.sessions.delete fun s => s.token = token })
  | _ => (false, db)

/-- The results of `db_validate_session`: 0 with the user name, -1, -2 and -3. -/
inductive Validated where
  | ok (username : Text)
  | notFound | expired | error
  deriving DecidableEq, Repr

def dbValidateSession (token : Text) (db : Database) : Validated × Database :=
  if token = [] then (.notFound, db)
  else if env.sql .validateSession = .prepareFailed then (.error, db)
  else match (env.sql .validateSession).rows (db.sessions.rows.filter fun s => s.token = token) with
  | [] => (.notFound, db)
  | s :: _ =>
    if s.expiresAt < env.now then (.expired, (dbDeleteSession env token db).2)
    else (.ok (strncpy maxUsernameLen s.username), db)

/-- `db_cleanup_expired_sessions`: the number of rows deleted, or -1. -/
def dbCleanupExpiredSessions (db : Database) : ℤ × Database :=
  match env.sql .cleanupExpiredSessions with
  | .done =>
    (db.sessions.changes fun s => s.expiresAt < env.now,
      { db with sessions := db.sessions.delete fun s => s.expiresAt < env.now })
  | _ => (-1, db)

/-- `db_create_room`, with the result 0 as `true`. -/
def dbCreateRoom (roomName owner : Text) (db : Database) : Bool × Database :=
  match env.sql .createRoom with
  | .done =>
    match db.rooms.insert? { name := roomName, owner, createdAt := env.now } with
    | some rooms => (true, { db with rooms })
    | none => (false, db)
  | _ => (false, db)

end ChatServer
