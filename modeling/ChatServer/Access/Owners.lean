import ChatServer.Access.Accounts
import ChatServer.History.Backed

/-! # Who writes the rows of a user

An account, a session, a message, a block, a receipt and the row of a private
room are written by a line of the user they name only. Messages and receipts,
like accounts and private rooms, are never taken back: the table keeps each of
them, and of a message all but its text.
-/

namespace ChatServer

open Library World

/-- What of a message never changes. -/
def MessageRow.origin (row : MessageRow) : ℤ × Text × Text × ℤ :=
  (row.id, row.room, row.sender, row.timestamp)

/-- A line on a connection that is not logged in. -/
def Anonymous (w : World) (e : Event) (command : Cmd) : Prop :=
  ∃ fd text conn, e = .line fd text ∧ w.conns.get fd = some conn ∧ conn.me = none ∧
    parseLine text = command

/-- Every row of a user that an event changes is changed by that user. -/
structure WrittenByUsers (env : Env) (w : World) (e : Event) : Prop where
  users : ∀ u, w.db.users.Changed (step w (env, e)).db.users u → ∃ command pw,
    Anonymous w e command ∧ command.type = .register ∧ command.arg1 = some u.username ∧
      command.arg2 = some pw ∧ u.passwordHash = env.sha256Hex pw
  sessions : ∀ s ∈ (step w (env, e)).db.sessions.rows, s ∉ w.db.sessions.rows → ∃ command,
    Anonymous w e command ∧ Credential env w.db command s.username
  messages : ∀ row ∈ (step w (env, e)).db.messages.rows,
    (∀ old ∈ w.db.messages.rows, old.origin ≠ row.origin) → ∃ conn me command room,
      Commands w e conn me command ∧ command.type = .msg ∧ row.sender = (w.client me).clientName ∧
        (w.client me).currentRoom = some room ∧ row.room = (w.room room).roomName ∧
          command.arg1 = some row.text
  blocks : ∀ b, w.db.blocks.Changed (step w (env, e)).db.blocks b → ∃ conn me command,
    Commands w e conn me command ∧ (command.type = .block ∨ command.type = .unblock) ∧
      b.blocker = (w.client me).clientName ∧ command.arg1 = some b.blocked
  receipts : ∀ r, w.db.readReceipts.Changed (step w (env, e)).db.readReceipts r →
    ∃ conn me command idStr, Commands w e conn me command ∧ command.type = .read ∧
      r.reader = (w.client me).clientName ∧ command.arg1 = some idStr ∧ r.messageId = atoll idStr
  rooms : ∀ r, w.db.rooms.Changed (step w (env, e)).db.rooms r → ∃ conn me command,
    Commands w e conn me command ∧ command.type = .createPrivate ∧
      r.owner = (w.client me).clientName ∧ command.arg1 = some r.name

/-- The tables that are never cut: accounts, private rooms, receipts and the origins of messages. -/
structure Database.Retained (db db' : Database) : Prop where
  users : db.users.rows <+: db'.users.rows
  rooms : db.rooms.rows <+: db'.rooms.rows
  receipts : db.readReceipts.rows <+: db'.readReceipts.rows
  messages : db.messages.rows.map MessageRow.origin <+: db'.messages.rows.map MessageRow.origin
  deleted : ∀ row ∈ db.messages.rows, row.deleted → row ∈ db'.messages.rows

variable {env : Env} {w : World} {e : Event} {command : Cmd} {conn : Conn} {me : ClientPtr}
  {db db' : Database} {op : DbOp} {n : Text}

theorem kept_of_table_ne {t : TableName} (h : op.table ≠ t) : t.Kept db (db.apply env op) :=
  apply_writes t (by simpa using Ne.symm h)

theorem changed_users {u : User} (h : db.users.Changed (db.apply env op).users u) :
    ∃ pw, op = .registerUser u.username pw ∧ u.passwordHash = env.sha256Hex pw := by
  cases op with
  | registerUser username password =>
    simp only [Database.apply] at h
    rcases dbRegisterUser_cases env username password db with ⟨-, users, hrows, hdb⟩ |
      ⟨-, result, -, hdb⟩
    · have hu : u = ⟨username, env.sha256Hex password⟩ := by
        rw [hdb] at h
        by_contra hne
        exact h (by simp [hrows, hne])
      exact ⟨password, by rw [hu], by rw [hu]⟩
    · rw [hdb] at h
      exact absurd rfl h.ne
  | _ => exact absurd (kept_of_table_ne (t := .users) (by simp [DbOp.table])) h.ne

theorem granted_of_apply {s : Session} (hs : s ∉ db.sessions.rows)
    (h : s ∈ (db.apply env op).sessions.rows) : op = .createSession s.username := by
  have hchanged : db.sessions.Changed (db.apply env op).sessions s := fun hiff => hs (hiff.mpr h)
  cases op with
  | createSession username =>
    have hrows : ∀ s ∈ (dbCreateSession env username db).2.sessions.rows,
        s ∈ db.sessions.rows ∨ s.username = username :=
      forall_insertSession (fun _ hs => .inl hs) fun _ hs => .inr hs
    rcases hrows s h with hold | hname
    · exact absurd hold hs
    · rw [hname]
  | deleteSession token =>
    refine absurd ?_ hs
    simp only [Database.apply, dbDeleteSession] at h
    split at h
    · exact (List.mem_filter.mp h).1
    · exact h
  | cleanupExpiredSessions =>
    refine absurd ?_ hs
    simp only [Database.apply, dbCleanupExpiredSessions] at h
    split at h
    · exact (List.mem_filter.mp h).1
    · exact h
  | _ => exact absurd (kept_of_table_ne (t := .sessions) (by simp [DbOp.table])) hchanged.ne

theorem changed_blocks {b : Block} (h : db.blocks.Changed (db.apply env op).blocks b) :
    op = .blockAdd b.blocker b.blocked ∨ op = .blockRemove b.blocker b.blocked := by
  cases op with
  | blockAdd blocker blocked =>
    simp only [Database.apply, ChatServer.blockAdd] at h
    split_ifs at h
    · exact absurd rfl h.ne
    · split at h
      · exact .inl (by rw [Table.eq_of_changed_insertOrIgnore h])
      · exact absurd rfl h.ne
  | blockRemove blocker blocked =>
    simp only [Database.apply, ChatServer.blockRemove] at h
    split at h
    · obtain ⟨-, hb⟩ := Table.changed_delete.mp h
      obtain ⟨rfl, rfl⟩ := of_decide_eq_true hb
      exact .inr rfl
    · exact absurd rfl h.ne
  | _ => exact absurd (kept_of_table_ne (t := .blocks) (by simp [DbOp.table])) h.ne

theorem changed_receipts {r : Receipt}
    (h : db.readReceipts.Changed (db.apply env op).readReceipts r) :
    op = .markRead r.messageId r.reader := by
  cases op with
  | markRead messageId reader =>
    simp only [Database.apply, receiptMarkRead] at h
    split_ifs at h
    · exact absurd rfl h.ne
    · split at h
      · rw [Table.eq_of_changed_insertOrIgnore h]
      · exact absurd rfl h.ne
  | _ => exact absurd (kept_of_table_ne (t := .readReceipts) (by simp [DbOp.table])) h.ne

theorem changed_rooms {r : RoomRow} (h : db.rooms.Changed (db.apply env op).rooms r) :
    op = .createRoom r.name r.owner := by
  cases op with
  | createRoom roomName owner =>
    simp only [Database.apply, dbCreateRoom] at h
    split at h
    · split at h
      · rename_i rooms hins
        have hr : r = ⟨roomName, owner, env.now⟩ := by
          by_contra hne
          exact h (by simp [Table.rows_of_insert? hins, hne])
        rw [hr]
      · exact absurd rfl h.ne
    · exact absurd rfl h.ne
  | _ => exact absurd (kept_of_table_ne (t := .rooms) (by simp [DbOp.table])) h.ne

theorem origins_update {t : Messages} {p : MessageRow → Bool} {f : MessageRow → MessageRow}
    (hf : ∀ r, (f r).id = r.id) (horigin : ∀ r, (f r).origin = r.origin) :
    (t.update p f hf).rows.map MessageRow.origin = t.rows.map MessageRow.origin := by
  simp only [Messages.update, List.map_map]
  refine List.map_congr_left fun r _ => ?_
  simp only [Function.comp_apply]
  split_ifs
  · exact horigin r
  · rfl

theorem origins_apply (env : Env) (db : Database) (op : DbOp) :
    (db.apply env op).messages.rows.map MessageRow.origin =
      db.messages.rows.map MessageRow.origin ∨
    ∃ roomName sender text id, op = .saveMessage roomName sender text ∧
      (db.apply env op).messages.rows.map MessageRow.origin =
        db.messages.rows.map MessageRow.origin ++ [(id, roomName, sender, env.now)] := by
  cases op with
  | saveMessage roomName sender text =>
    simp only [Database.apply, dbSaveMessage]
    split
    · exact .inr ⟨roomName, sender, text, db.messages.seq + 1 + env.rowidGap, rfl,
        by simp [Messages.insert, MessageRow.origin]⟩
    · exact .inl rfl
  | editMessage msgId newText =>
    refine .inl ?_
    simp only [Database.apply, dbEditMessage]
    split_ifs
    · rfl
    · split
      · exact origins_update (fun _ => by rfl) fun _ => rfl
      · rfl
  | deleteMessage msgId =>
    refine .inl ?_
    simp only [Database.apply, dbDeleteMessage]
    split_ifs
    · rfl
    · split
      · exact origins_update (fun _ => by rfl) fun _ => rfl
      · rfl
  | _ =>
    refine .inl (congrArg (fun t : Messages => t.rows.map MessageRow.origin) ?_)
    exact kept_of_table_ne (t := .messages) (by simp [DbOp.table])

theorem commands_of_line {fd : Fd} {text : Text} (hconn : w.conns.get fd = some conn)
    (hme : conn.me = some me) : Commands w (.line fd text) conn me (parseLine text) := by
  obtain rfl := w.conns.fd_eq _ _ hconn
  exact ⟨text, rfl, hconn, hme, rfl⟩

/-- A row that an event changes is changed by a statement that the event may issue. -/
theorem op_of_changed {ρ κ : Type*} {key : ρ → κ} (table : Database → Table key) {r : ρ}
    (h : (table w.db).Changed (table (step w (env, e)).db) r) :
    ∃ db op, Records env w e db op ∧ (table db).Changed (table (db.apply env op)) r :=
  (step_records w env e).exists_change (P := fun db => r ∈ (table db).rows) h

theorem users_written {u : User} (h : w.db.users.Changed (step w (env, e)).db.users u) :
    ∃ command pw, Anonymous w e command ∧ command.type = .register ∧
      command.arg1 = some u.username ∧ command.arg2 = some pw ∧
        u.passwordHash = env.sha256Hex pw := by
  obtain ⟨db, op, hrec, hop⟩ := op_of_changed Database.users h
  obtain ⟨pw, rfl, hhash⟩ := changed_users hop
  obtain ⟨hconn, hissues⟩ := hrec
  cases hissues with
  | register ht hme h₁ h₂ => exact ⟨_, pw, ⟨_, _, _, rfl, hconn, hme, rfl⟩, ht, h₁, h₂, hhash⟩

theorem sessions_written {s : Session} (hs : s ∉ w.db.sessions.rows)
    (h : s ∈ (step w (env, e)).db.sessions.rows) :
    ∃ command, Anonymous w e command ∧ Credential env w.db command s.username := by
  obtain ⟨db, op, hrec, hout, hin⟩ := (step_records w env e).exists_flip
    (P := fun db => s ∈ db.sessions.rows) hs h
  obtain rfl := granted_of_apply hout hin
  obtain ⟨hconn, hissues⟩ := hrec
  cases hissues with
  | grant hme proved => exact ⟨_, ⟨_, _, _, rfl, hconn, hme, rfl⟩, proved⟩

theorem messages_written {row : MessageRow}
    (hout : ∀ old ∈ w.db.messages.rows, old.origin ≠ row.origin)
    (h : row ∈ (step w (env, e)).db.messages.rows) : ∃ conn me command room,
      Commands w e conn me command ∧ command.type = .msg ∧ row.sender = (w.client me).clientName ∧
        (w.client me).currentRoom = some room ∧ row.room = (w.room room).roomName ∧
          command.arg1 = some row.text := by
  have hnew : row ∉ w.db.messages.rows := fun hold => hout row hold rfl
  rcases step_archive w env e with hkept | ⟨conn, me, command, hcmd, ha⟩
  · have hrows : (step w (env, e)).db.messages = w.db.messages := congrArg Archive.messages hkept
    exact absurd (hrows ▸ h) hnew
  generalize hresult : (step w (env, e)).archive = a at ha
  have hrows : (step w (env, e)).db.messages = a.messages := congrArg Archive.messages hresult
  rw [hrows] at h
  cases ha with
  | create ht h₁ made => exact absurd h hnew
  | @msg text room msgId db reg ht h₁ inside htext free added =>
    obtain ⟨rfl, -⟩ := shelvesOf_of_added added
    rcases mem_dbSaveMessage h with hold | ⟨-, rfl⟩
    · exact absurd hold hnew
    · exact ⟨conn, me, command, room, hcmd, ht, rfl, inside, rfl, h₁⟩
  | edit ht h₁ h₂ inside htext hpos edited =>
    obtain ⟨rfl, -⟩ := shelvesOf_of_edited edited
    rcases mem_dbEditMessage h with hold | ⟨old, hold, -, -, -, rfl⟩
    · exact absurd hold hnew
    · exact absurd rfl (hout old hold)
  | delete ht h₁ inside hpos deleted =>
    obtain ⟨rfl, -⟩ := shelvesOf_of_deleted deleted
    rcases mem_dbDeleteMessage h with hold | ⟨old, hold, -, -, -, rfl⟩
    · exact absurd hold hnew
    · exact absurd rfl (hout old hold)

theorem blocks_written {b : Block} (h : w.db.blocks.Changed (step w (env, e)).db.blocks b) :
    ∃ conn me command, Commands w e conn me command ∧
      (command.type = .block ∨ command.type = .unblock) ∧
        b.blocker = (w.client me).clientName ∧ command.arg1 = some b.blocked := by
  obtain ⟨db, op, hrec, hop⟩ := op_of_changed Database.blocks h
  obtain ⟨hconn, hissues⟩ := hrec
  obtain ⟨blocker, blocked⟩ := b
  rcases changed_blocks hop with rfl | rfl
  · cases hissues with
    | block ht hme h₁ => exact ⟨_, _, _, commands_of_line hconn hme, .inl ht, rfl, h₁⟩
  · cases hissues with
    | unblock ht hme h₁ => exact ⟨_, _, _, commands_of_line hconn hme, .inr ht, rfl, h₁⟩

theorem receipts_written {r : Receipt}
    (h : w.db.readReceipts.Changed (step w (env, e)).db.readReceipts r) :
    ∃ conn me command idStr, Commands w e conn me command ∧ command.type = .read ∧
      r.reader = (w.client me).clientName ∧ command.arg1 = some idStr ∧
        r.messageId = atoll idStr := by
  obtain ⟨db, op, hrec, hop⟩ := op_of_changed Database.readReceipts h
  obtain rfl := changed_receipts hop
  obtain ⟨hconn, hissues⟩ := hrec
  obtain ⟨messageId, reader⟩ := r
  cases hissues with
  | read ht hme h₁ => exact ⟨_, _, _, _, commands_of_line hconn hme, ht, rfl, h₁, rfl⟩

theorem rooms_written {r : RoomRow} (h : w.db.rooms.Changed (step w (env, e)).db.rooms r) :
    ∃ conn me command, Commands w e conn me command ∧ command.type = .createPrivate ∧
      r.owner = (w.client me).clientName ∧ command.arg1 = some r.name := by
  obtain ⟨db, op, hrec, hop⟩ := op_of_changed Database.rooms h
  obtain rfl := changed_rooms hop
  obtain ⟨hconn, hissues⟩ := hrec
  obtain ⟨name, owner, createdAt⟩ := r
  cases hissues with
  | keep ht hme h₁ => exact ⟨_, _, _, commands_of_line hconn hme, ht, rfl, h₁⟩

/--
Whatever state the server is in, an event writes a row of a user's own only as
a line of that user: its account and sessions by a line with its credentials,
its messages, blocks, receipts and private rooms by a command of its client.
-/
theorem writtenByUsers_step (w : World) (env : Env) (e : Event) : WrittenByUsers env w e where
  users _ h := users_written h
  sessions _ h hs := sessions_written hs h
  messages _ h hout := messages_written hout h
  blocks _ h := blocks_written h
  receipts _ h := receipts_written h
  rooms _ h := rooms_written h

namespace Database.Retained

variable {db'' : Database}

theorem refl (db : Database) : Retained db db :=
  ⟨List.prefix_rfl, List.prefix_rfl, List.prefix_rfl, List.prefix_rfl, fun _ h _ => h⟩

theorem trans (h : Retained db db') (h' : Retained db' db'') : Retained db db'' where
  users := h.users.trans h'.users
  rooms := h.rooms.trans h'.rooms
  receipts := h.receipts.trans h'.receipts
  messages := h.messages.trans h'.messages
  deleted row hrow hdel := h'.deleted row (h.deleted row hrow hdel) hdel

end Database.Retained

theorem insert?_prefix {ρ κ : Type*} {key : ρ → κ} [DecidableEq κ] {t u : Table key} {r : ρ}
    (h : t.insert? r = some u) : t.rows <+: u.rows := by
  rw [Table.rows_of_insert? h]
  exact List.prefix_append _ _

theorem insertOrIgnore_prefix {ρ κ : Type*} {key : ρ → κ} [DecidableEq κ] (t : Table key) (r : ρ) :
    t.rows <+: (t.insertOrIgnore r).rows := by
  unfold Table.insertOrIgnore
  cases h : t.insert? r with
  | none => exact List.prefix_rfl
  | some u => exact insert?_prefix h

theorem mem_update_of_deleted {t : Messages} {msgId : ℤ} {f : MessageRow → MessageRow}
    (hf : ∀ r, (f r).id = r.id) {row : MessageRow} (hrow : row ∈ t.rows) (hdel : row.deleted) :
    row ∈ (t.update (fun r => r.id = msgId ∧ r.deleted = false) f hf).rows :=
  List.mem_map.mpr ⟨row, hrow, if_neg (by simp [hdel])⟩

theorem prefix_of_kept {ρ κ : Type*} {key : ρ → κ} {t u : Table key} (h : u = t) :
    t.rows <+: u.rows := h ▸ List.prefix_rfl

theorem rooms_apply : db.rooms.rows <+: (db.apply env op).rooms.rows := by
  cases op with
  | createRoom roomName owner =>
    simp only [Database.apply, dbCreateRoom]
    split
    · split
      · exact insert?_prefix ‹_›
      · exact List.prefix_rfl
    · exact List.prefix_rfl
  | _ => exact prefix_of_kept (kept_of_table_ne (t := .rooms) (by simp [DbOp.table]))

theorem receipts_apply : db.readReceipts.rows <+: (db.apply env op).readReceipts.rows := by
  cases op with
  | markRead messageId reader =>
    simp only [Database.apply, receiptMarkRead]
    split_ifs
    · exact List.prefix_rfl
    · split
      · exact insertOrIgnore_prefix _ _
      · exact List.prefix_rfl
  | _ => exact prefix_of_kept (kept_of_table_ne (t := .readReceipts) (by simp [DbOp.table]))

theorem mem_of_kept {t u : Messages} (h : u = t) {row : MessageRow} (hrow : row ∈ t.rows) :
    row ∈ u.rows := h ▸ hrow

theorem deleted_apply {row : MessageRow} (hrow : row ∈ db.messages.rows) (hdel : row.deleted) :
    row ∈ (db.apply env op).messages.rows := by
  cases op with
  | saveMessage roomName sender text =>
    simp only [Database.apply, dbSaveMessage]
    split
    · exact List.mem_append_left _ hrow
    · exact hrow
  | editMessage msgId newText =>
    simp only [Database.apply, dbEditMessage]
    split_ifs
    · exact hrow
    · split
      · exact mem_update_of_deleted (fun _ => by rfl) hrow hdel
      · exact hrow
  | deleteMessage msgId =>
    simp only [Database.apply, dbDeleteMessage]
    split_ifs
    · exact hrow
    · split
      · exact mem_update_of_deleted (fun _ => by rfl) hrow hdel
      · exact hrow
  | _ => exact mem_of_kept (kept_of_table_ne (t := .messages) (by simp [DbOp.table])) hrow

theorem retained_apply : db.Retained (db.apply env op) where
  users := apply_users
  rooms := rooms_apply
  receipts := receipts_apply
  messages := by
    rcases origins_apply env db op with hkept | ⟨_, _, _, _, -, hadd⟩
    · exact hkept ▸ List.prefix_rfl
    · rw [hadd]
      exact List.prefix_append _ _
  deleted _ hrow hdel := deleted_apply hrow hdel

/--
However the server runs on, it keeps every account, every private room's row
and every receipt, and of every message the id, the room, the sender and the
time, in their order; and a message that is deleted stays deleted.
-/
theorem run_retained (w : World) (inputs : List (Env × Event)) :
    w.db.Retained (run step w inputs).db := by
  refine run_invariant (I := fun w' : World => w.db.Retained w'.db) (fun w' input h => ?_)
    (.refl w.db) inputs
  exact h.trans ((step_records w' input.1 input.2).invariant
    (I := fun db => w'.db.Retained db) (fun _ _ h _ => h.trans retained_apply) (.refl w'.db))

end ChatServer
