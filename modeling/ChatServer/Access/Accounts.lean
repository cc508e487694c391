import ChatServer.Access.Journal
import ChatServer.Access.Registration
import ChatServer.Membership.Names
import ChatServer.Membership.Takeover

/-! # Accounts

Rows of the other tables refer to users by name, and no foreign key guards the
names. They are names of accounts all the same, in every state that any number
of runs and restarts reaches, for an account is for ever and every statement
that writes a name has taken it from a client or looked it up.
-/

namespace ChatServer

open Library World Roster

/-- The users that a table's rows name have accounts. -/
def TableName.Signed (db : Database) : TableName → Prop
  | messages => ∀ r ∈ db.messages.rows, db.HasAccount r.sender
  | users => True
  | sessions => ∀ s ∈ db.sessions.rows,
      db.HasAccount s.username ∧ badLength maxUsernameLen s.username = false
  | rooms => ∀ r ∈ db.rooms.rows, db.HasAccount r.owner
  | blocks => ∀ b ∈ db.blocks.rows, db.HasAccount b.blocker
  | mutes => ∀ s ∈ db.mutes.rows, db.HasAccount s.imposedBy
  | bans => ∀ s ∈ db.bans.rows, db.HasAccount s.imposedBy
  | roomRoles => ∀ r ∈ db.roomRoles.rows, db.HasAccount r.username
  | invites => ∀ i ∈ db.invites.rows, db.HasAccount i.inviter ∧ db.HasAccount i.invitee
  | readReceipts => ∀ r ∈ db.readReceipts.rows, db.HasAccount r.reader

/-- The users that all rows name have accounts. -/
def Database.Signed (db : Database) : Prop := ∀ t : TableName, t.Signed db

/-- The table a statement writes. -/
def DbOp.table : DbOp → TableName
  | .saveMessage .. | .editMessage .. | .deleteMessage .. => .messages
  | .registerUser .. => .users
  | .createSession .. | .deleteSession .. | .cleanupExpiredSessions => .sessions
  | .createRoom .. => .rooms
  | .setRole .. => .roomRoles
  | .blockAdd .. | .blockRemove .. => .blocks
  | .muteAdd .. | .muteRemove .. => .mutes
  | .banAdd .. => .bans
  | .inviteCreate .. | .inviteAccept .. => .invites
  | .markRead .. => .readReceipts

/-- The users a statement writes down have accounts. -/
def DbOp.Grounded (db : Database) : DbOp → Prop
  | .saveMessage _ sender _ => db.HasAccount sender
  | .createSession username =>
    db.HasAccount username ∧ badLength maxUsernameLen username = false
  | .createRoom _ owner => db.HasAccount owner
  | .setRole _ username _ => db.HasAccount username
  | .blockAdd blocker _ => db.HasAccount blocker
  | .muteAdd _ mutedBy _ => db.HasAccount mutedBy
  | .banAdd _ bannedBy _ => db.HasAccount bannedBy
  | .inviteCreate _ inviter invitee => db.HasAccount inviter ∧ db.HasAccount invitee
  | .markRead _ reader => db.HasAccount reader
  | _ => True

/-- The database names accounts only, and so do the clients logged in. -/
structure World.Accounted (w : World) : Prop where
  db : w.db.Signed
  clients : ∀ c ∈ w.reg.clientList, w.db.HasAccount (w.client c).clientName

variable {env : Env} {w : World} {e : Event} {command : Cmd} {conn : Conn} {me c : ClientPtr}
  {db db' : Database} {op : DbOp} {n : Text} {u : User}

theorem Database.HasAccount.mono (h : db.HasAccount n) (husers : db.users.rows ⊆ db'.users.rows) :
    db'.HasAccount n := by
  obtain ⟨u, hu, hname⟩ := h
  exact ⟨u, husers hu, hname⟩

theorem signed_empty : Database.empty.Signed := by
  intro t
  cases t <;> simp [TableName.Signed, Database.empty, Messages.empty, Table.empty]

theorem apply_writes : SameOutside [op.table] db (db.apply env op) := by
  cases op with
  | saveMessage => exact dbSaveMessage_writes
  | editMessage => exact dbEditMessage_writes
  | deleteMessage => exact dbDeleteMessage_writes
  | registerUser => exact dbRegisterUser_writes
  | createSession => exact insertSession_writes env.tokens
  | deleteSession => exact dbDeleteSession_writes
  | cleanupExpiredSessions => exact dbCleanupExpiredSessions_writes
  | createRoom => exact dbCreateRoom_writes
  | setRole => exact permissionSetRole_writes
  | blockAdd => exact blockAdd_writes
  | blockRemove => exact blockRemove_writes
  | muteAdd => exact muteAdd_writes
  | muteRemove => exact muteRemove_writes
  | banAdd => exact banAdd_writes
  | inviteCreate => exact inviteCreate_writes
  | inviteAccept => exact inviteAccept_writes
  | markRead => exact receiptMarkRead_writes

theorem apply_users : db.users.rows <+: (db.apply env op).users.rows := by
  by_cases htable : op.table = .users
  · cases op <;> try cases htable
    rename_i username password
    rcases dbRegisterUser_cases env username password db with ⟨-, users, hrows, hdb⟩ |
      ⟨-, result, -, hdb⟩
    · simp only [Database.apply, hdb, hrows]
      exact List.prefix_append _ _
    · simp only [Database.apply, hdb]
      exact List.prefix_rfl
  · have hkept : (db.apply env op).users = db.users :=
      apply_writes .users (by simpa using Ne.symm htable)
    exact hkept ▸ List.prefix_rfl

theorem TableName.Signed.congr {t : TableName} (h : t.Signed db) (hkept : t.Kept db db')
    (husers : db.users.rows ⊆ db'.users.rows) : t.Signed db' := by
  cases t <;> simp only [Signed, Kept] at h hkept ⊢
  case messages => exact fun r hr => (h r (hkept ▸ hr)).mono husers
  case sessions => exact fun s hs => (h s (hkept ▸ hs)).imp_left fun h => h.mono husers
  case rooms => exact fun r hr => (h r (hkept ▸ hr)).mono husers
  case blocks => exact fun b hb => (h b (hkept ▸ hb)).mono husers
  case mutes => exact fun s hs => (h s (hkept ▸ hs)).mono husers
  case bans => exact fun s hs => (h s (hkept ▸ hs)).mono husers
  case roomRoles => exact fun r hr => (h r (hkept ▸ hr)).mono husers
  case invites =>
    exact fun i hi => (h i (hkept ▸ hi)).imp (fun h => h.mono husers) fun h => h.mono husers
  case readReceipts => exact fun r hr => (h r (hkept ▸ hr)).mono husers

theorem forall_insertSession {P : Session → Prop} {tokens : List Text}
    (h : ∀ s ∈ db.sessions.rows, P s) (hn : ∀ s, s.username = n → P s) :
    ∀ s ∈ (insertSession env n tokens db).2.sessions.rows, P s := by
  induction tokens with
  | nil => exact h
  | cons token tokens ih =>
    unfold insertSession
    split
    · split
      · exact Table.forall_insert? h (hn _ rfl) ‹_›
      · exact ih
    · exact h

theorem signed_saveMessage {room sender text : Text} (h : TableName.messages.Signed db)
    (hsender : db.HasAccount sender) :
    TableName.messages.Signed (dbSaveMessage env room sender text db).2 := by
  unfold dbSaveMessage
  split
  · intro r hr
    rcases List.mem_append.mp hr with hr | hr
    · exact h r hr
    · rw [List.mem_singleton.mp hr]
      exact hsender
  · exact h

theorem signed_update {p : MessageRow → Bool} {f : MessageRow → MessageRow}
    {hf : ∀ r, (f r).id = r.id} (hsender : ∀ r, (f r).sender = r.sender)
    (h : TableName.messages.Signed db) :
    TableName.messages.Signed { db with messages := db.messages.update p f hf } := by
  intro r hr
  obtain ⟨s, hs, rfl⟩ := List.mem_map.mp hr
  split_ifs
  · rw [hsender]
    exact h s hs
  · exact h s hs

theorem signed_editMessage {msgId : ℤ} {newText : Text} (h : TableName.messages.Signed db) :
    TableName.messages.Signed (dbEditMessage env msgId newText db) := by
  unfold dbEditMessage
  split_ifs
  · exact h
  · split
    · exact signed_update (fun _ => rfl) h
    · exact h

theorem signed_deleteMessage {msgId : ℤ} (h : TableName.messages.Signed db) :
    TableName.messages.Signed (dbDeleteMessage env msgId db) := by
  unfold dbDeleteMessage
  split_ifs
  · exact h
  · split
    · exact signed_update (fun _ => rfl) h
    · exact h

theorem signed_deleteSession {token : Text} (h : TableName.sessions.Signed db) :
    TableName.sessions.Signed (dbDeleteSession env token db).2 := by
  unfold dbDeleteSession
  split
  · exact Table.forall_delete h
  · exact h

theorem signed_cleanupExpiredSessions (h : TableName.sessions.Signed db) :
    TableName.sessions.Signed (dbCleanupExpiredSessions env db).2 := by
  unfold dbCleanupExpiredSessions
  split
  · exact Table.forall_delete h
  · exact h

theorem signed_createRoom {roomName owner : Text} (h : TableName.rooms.Signed db)
    (hop : db.HasAccount owner) :
    TableName.rooms.Signed (dbCreateRoom env roomName owner db).2 := by
  unfold dbCreateRoom
  split
  · split
    · exact Table.forall_insert? (P := fun r : RoomRow => db.HasAccount r.owner) h hop ‹_›
    · exact h
  · exact h

theorem signed_setRole {roomName username : Text} {role : RoomRole}
    (h : TableName.roomRoles.Signed db) (hop : db.HasAccount username) :
    TableName.roomRoles.Signed (permissionSetRole env roomName username role db) := by
  unfold permissionSetRole
  split
  · exact Table.forall_insertOrReplace h hop
  · exact h

theorem signed_blockAdd {blocker blocked : Text} (h : TableName.blocks.Signed db)
    (hop : db.HasAccount blocker) :
    TableName.blocks.Signed (blockAdd env blocker blocked db).2 := by
  unfold blockAdd
  split_ifs
  · exact h
  · split
    · exact Table.forall_insertOrIgnore h hop
    · exact h

theorem signed_blockRemove {blocker blocked : Text} (h : TableName.blocks.Signed db) :
    TableName.blocks.Signed (blockRemove env blocker blocked db).2 := by
  unfold blockRemove
  split
  · exact Table.forall_delete h
  · exact h

theorem signed_muteAdd {roomName mutedBy mutedUser : Text} (h : TableName.mutes.Signed db)
    (hop : db.HasAccount mutedBy) :
    TableName.mutes.Signed (muteAdd env roomName mutedBy mutedUser db).2 := by
  unfold muteAdd
  split
  · exact Table.forall_insertOrReplace h hop
  · exact h

theorem signed_muteRemove {roomName mutedUser : Text} (h : TableName.mutes.Signed db) :
    TableName.mutes.Signed (muteRemove env roomName mutedUser db).2 := by
  unfold muteRemove
  split
  · exact Table.forall_delete h
  · exact h

theorem signed_banAdd {roomName bannedBy bannedUser : Text} (h : TableName.bans.Signed db)
    (hop : db.HasAccount bannedBy) :
    TableName.bans.Signed (banAdd env roomName bannedBy bannedUser db).2 := by
  unfold banAdd
  split
  · exact Table.forall_insertOrReplace h hop
  · exact h

theorem signed_inviteCreate {roomName inviter invitee : Text} (h : TableName.invites.Signed db)
    (hop : db.HasAccount inviter ∧ db.HasAccount invitee) :
    TableName.invites.Signed (inviteCreate env roomName inviter invitee db).2 := by
  unfold inviteCreate
  split
  · exact Table.forall_insertOrIgnore h hop
  · exact h

theorem signed_inviteAccept {roomName invitee : Text} (h : TableName.invites.Signed db) :
    TableName.invites.Signed (inviteAccept env roomName invitee db).2 := by
  unfold inviteAccept
  split
  · exact Table.forall_delete h
  · exact h

theorem signed_markRead {messageId : ℤ} {reader : Text} (h : TableName.readReceipts.Signed db)
    (hop : db.HasAccount reader) :
    TableName.readReceipts.Signed (receiptMarkRead env messageId reader db).2 := by
  unfold receiptMarkRead
  split_ifs
  · exact h
  · split
    · exact Table.forall_insertOrIgnore h hop
    · exact h

/-- A statement that writes names of accounts only leaves its table signed. -/
theorem Database.Signed.written (h : db.Signed) (hop : op.Grounded db) :
    op.table.Signed (db.apply env op) := by
  have husers : db.users.rows ⊆ (db.apply env op).users.rows := apply_users.subset
  cases op with
  | saveMessage => exact signed_saveMessage (h .messages) hop
  | editMessage => exact signed_editMessage (h .messages)
  | deleteMessage => exact signed_deleteMessage (h .messages)
  | registerUser => trivial
  | createSession =>
    refine forall_insertSession (fun s hs => (h .sessions s hs).imp_left fun h => h.mono husers) ?_
    rintro s hs
    rw [hs]
    exact hop.imp_left fun h => h.mono husers
  | deleteSession => exact signed_deleteSession (h .sessions)
  | cleanupExpiredSessions => exact signed_cleanupExpiredSessions (h .sessions)
  | createRoom => exact signed_createRoom (h .rooms) hop
  | setRole => exact signed_setRole (h .roomRoles) hop
  | blockAdd => exact signed_blockAdd (h .blocks) hop
  | blockRemove => exact signed_blockRemove (h .blocks)
  | muteAdd => exact signed_muteAdd (h .mutes) hop
  | muteRemove => exact signed_muteRemove (h .mutes)
  | banAdd => exact signed_banAdd (h .bans) hop
  | inviteCreate => exact signed_inviteCreate (h .invites) hop
  | inviteAccept => exact signed_inviteAccept (h .invites)
  | markRead => exact signed_markRead (h .readReceipts) hop

theorem Database.Signed.apply (h : db.Signed) (hop : op.Grounded db) :
    (db.apply env op).Signed := by
  intro t
  by_cases ht : t = op.table
  · rw [ht]
    exact h.written hop
  · exact (h t).congr (apply_writes t (by simpa using ht)) apply_users.subset

theorem role_hasAccount {room user : Text} (h : db.Signed)
    (hrole : permissionGetRole env room user db ≠ .member) : db.HasAccount user := by
  have hheld := permissionGetRole_of_ne hrole
  rw [hheld] at hrole
  unfold Database.role at hrole
  split at hrole
  · rename_i row hrow
    obtain ⟨hmem, hkey⟩ := Table.find?_eq_some.mp hrow
    obtain rfl : row.username = user := congrArg Prod.snd hkey
    exact h .roomRoles row hmem
  · exact absurd rfl hrole

/-- The names a line writes down are those of its client and those it has looked up. -/
theorem Issues.grounded (h : Issues env w conn command db op) (hdb : db.Signed)
    (hme : ∀ me, conn.me = some me → db.HasAccount (w.client me).clientName) :
    op.Grounded db := by
  cases h with
  | grant _ _ account fits => exact ⟨account, fits⟩
  | msg _ hconn => exact hme _ hconn
  | read _ hconn => exact hme _ hconn
  | own _ hconn => exact hme _ hconn
  | keep _ hconn => exact hme _ hconn
  | demote _ _ _ _ _ ranked => exact role_hasAccount hdb ranked
  | block _ hconn => exact hme _ hconn
  | mute _ hconn => exact hme _ hconn
  | ban _ hconn => exact hme _ hconn
  | invite _ hconn _ _ _ account => exact ⟨hme _ hconn, account⟩
  | _ => trivial

theorem step_users (w : World) (env : Env) (e : Event) :
    w.db.users.rows <+: (step w (env, e)).db.users.rows :=
  (step_records w env e).invariant (I := fun db => w.db.users.rows <+: db.users.rows)
    (fun _ _ h _ => h.trans apply_users) List.prefix_rfl

theorem step_signed (hs : w.roster.Sound) (h : w.Accounted) (env : Env) (e : Event) :
    (step w (env, e)).db.Signed := by
  refine ((step_records w env e).invariant
    (I := fun db => db.Signed ∧ w.db.users.rows <+: db.users.rows) ?_
    ⟨h.db, List.prefix_rfl⟩).1
  rintro db op ⟨hdb, husers⟩ hop
  obtain ⟨hconn, hissues⟩ := hop
  refine ⟨hdb.apply (hissues.grounded hdb fun me hme => ?_), husers.trans apply_users⟩
  obtain ⟨hmem, -⟩ := hs.linked.mem_of_conn (roster_conns_eq_some.mpr ⟨_, hconn, hme⟩)
  exact (h.clients me hmem).mono husers.subset

theorem grantSession_users {status : Text} :
    (grantSession env conn status n w).db.users = w.db.users :=
  grantSession_writes .users (by simp)

theorem handleRegister_account {pw : Text} (hme : conn.me = none) (h₁ : command.arg1 = some n)
    (h₂ : command.arg2 = some pw) (hins : (dbRegisterUser env n pw w.db).1 = .inserted) :
    (handleRegister env command conn w).db.HasAccount n := by
  obtain ⟨⟨result, db⟩, hdb⟩ : ∃ p, dbRegisterUser env n pw w.db = p := ⟨_, rfl⟩
  obtain rfl : result = .inserted := by rwa [hdb] at hins
  have haccount : db.HasAccount n := hasAccount_of_inserted hdb
  simp only [handleRegister, hme, h₁, h₂, hdb]
  simp only [ne_eq, not_true_eq_false, if_false]
  split_ifs
  · exact haccount
  · split
    · unfold Database.HasAccount
      rw [grantSession_users]
      exact haccount
    · exact haccount

theorem account_of_establishes {fd : Fd} (h : w.Accounted) (hconn : w.roster.conns fd = some none)
    (hname : Establishes w (env, e) fd n) : (step w (env, e)).db.HasAccount n := by
  have hkept := (step_users w env e).subset
  obtain ⟨text, rfl, ⟨ht, h₁, pw, h₂, hins⟩ | ⟨-, -, pw, -, hverified⟩ |
    ⟨-, token, -, hvalid⟩⟩ := hname
  · obtain ⟨conn, hconn, hme⟩ : ∃ conn, w.conns.get fd = some conn ∧ conn.me = none := by
      simpa [World.roster, rosterOf] using hconn
    obtain rfl := w.conns.fd_eq _ _ hconn
    rw [step_eq_handleRegister hconn ht]
    exact handleRegister_account (w := { w with out := [], broadcasts := [] }) hme h₁ h₂ hins
  · exact (hasAccount_of_verified hverified).mono hkept
  · obtain ⟨⟨_, db'⟩, hdb⟩ : ∃ p, dbValidateSession env token
        (dbCleanupExpiredSessions env w.db).2 = p := ⟨_, rfl⟩
    rw [hdb] at hvalid
    subst hvalid
    obtain ⟨s, hs, rfl⟩ := session_of_validated hdb
    obtain ⟨haccount, hfits⟩ := h.db .sessions s (mem_cleanupExpiredSessions hs)
    rw [strncpy_of_not_badLength hfits]
    exact haccount.mono hkept

theorem accounted_step (hs : w.roster.Sound) (h : w.Accounted) (env : Env) (e : Event) :
    (step w (env, e)).Accounted := by
  refine ⟨step_signed hs h env e, fun c hc => ?_⟩
  have hs' : (step w (env, e)).roster.Sound := (step_leads w env e).sound hs
  have hconn := hs'.linked.conn_of_mem hc
  rcases leads_conns (step_leads w env e) hs hconn with ⟨n, hlogin, hname⟩ | ⟨hkept, hname⟩
  · have haccount : (step w (env, e)).db.HasAccount n :=
      account_of_establishes h (login_of_does hlogin).1 (establishes_of_login hlogin)
    exact Eq.subst hname.symm haccount
  · obtain ⟨hmem, -⟩ := hs.linked.mem_of_conn hkept
    have haccount := (h.clients c hmem).mono (step_users w env e).subset
    exact Eq.subst hname.symm haccount

theorem accounted_init {cfg : Config} {start : ℤ} (h : db.Signed) :
    (World.init cfg db start).Accounted :=
  ⟨h, by simp [World.init, registryInit]⟩

theorem run_accounted (cfg : Config) (start : ℤ) (inputs : List (Env × Event)) (h : db.Signed) :
    (run step (World.init cfg db start) inputs).Accounted := by
  refine (run_invariant (I := fun w : World => w.roster.Sound ∧ w.Accounted) ?_
    ⟨(roster_init cfg db start).sound, accounted_init h⟩ inputs).2
  rintro w ⟨env, e⟩ ⟨hs, hw⟩
  exact ⟨(step_leads w env e).sound hs, accounted_step hs hw env e⟩

/-- A start-up of the server and the run that follows it. -/
structure Life where
  cfg : Config
  start : ℤ
  inputs : List (Env × Event)

/-- The database when the server has been run a number of times, each time on what was left. -/
def Database.outlive (db : Database) (lives : List Life) : Database :=
  run (fun db life => (run step (World.init life.cfg db life.start) life.inputs).db) db lives

/--
However often the server is run, stopped and started again on a database whose
rows name accounts, in every state of the next run all rows name accounts, and
so do the clients logged in.
-/
theorem restarts_accounted (lives : List Life) (cfg : Config) (start : ℤ)
    (inputs : List (Env × Event)) (h : db.Signed) :
    (run step (World.init cfg (db.outlive lives) start) inputs).Accounted := by
  refine run_accounted cfg start inputs ?_
  exact run_invariant (I := Database.Signed)
    (fun _ life hdb => (run_accounted life.cfg life.start life.inputs hdb).db) h lives

/-- Alice registers. -/
def aliceEnrols : List (Env × Event) :=
  [(.calm 0 0 [], .accept 4 false),
   (.calm 0 0 "t0".toList, .line 4 "REGISTER alice pw".toList)]

/-- Two runs on one database, which is empty at first. -/
theorem restart_accounted :
    (run step (World.init ⟨4, 4, 4, 10⟩
      (Database.empty.outlive [⟨⟨4, 4, 4, 10⟩, 0, aliceEnrols⟩]) 0)
      [(.calm 0 0 [], .accept 4 false),
       (.calm 0 0 "t1".toList, .line 4 "LOGIN alice pw".toList)]).Accounted :=
  restarts_accounted _ _ _ _ signed_empty

theorem run_users (w : World) (inputs : List (Env × Event)) :
    w.db.users.rows <+: (run step w inputs).db.users.rows :=
  run_invariant (I := fun w' : World => w.db.users.rows <+: w'.db.users.rows)
    (fun w' input h => h.trans (step_users w' input.1 input.2)) List.prefix_rfl inputs

/--
An account is for ever: after any run it is still there, its name cannot be
registered again, and a password opens it exactly if it has the digest stored
when the account was made.
-/
theorem account_kept {w : World} {u : User} (hu : u ∈ w.db.users.rows)
    (inputs : List (Env × Event)) (env : Env) (pw : Text) :
    let db := (run step w inputs).db
    u ∈ db.users.rows ∧ (dbRegisterUser env u.username pw db).1 ≠ .inserted ∧
      (env.sql .verifyUser = .done →
        (dbVerifyUser env u.username pw db = .ok ↔ u.passwordHash = env.sha256Hex pw)) := by
  intro db
  have hkept : u ∈ db.users.rows := (run_users w inputs).subset hu
  refine ⟨hkept, fun hins => ?_, fun hsql => ?_⟩
  · rcases dbRegisterUser_cases env u.username pw db with ⟨hfree, -⟩ | ⟨-, result, hne, hdb⟩
    · exact hfree.2 u hkept rfl
    · exact hne (by rwa [hdb] at hins)
  · have hrows : ∀ x ∈ db.users.rows.filter (fun x => x.username = u.username), x = u := by
      intro x hx
      obtain ⟨hx, hname⟩ := List.mem_filter.mp hx
      exact db.users.eq_of_key hx hkept (of_decide_eq_true hname)
    have hmem : u ∈ db.users.rows.filter (fun x => x.username = u.username) :=
      List.mem_filter.mpr ⟨hkept, by simp⟩
    unfold dbVerifyUser
    rw [hsql]
    simp only [reduceCtorEq, if_false, Sql.rows_done]
    cases hsel : db.users.rows.filter (fun x => x.username = u.username) with
    | nil => simp [hsel] at hmem
    | cons x xs =>
      rw [hrows x (hsel ▸ List.mem_cons_self)]
      simp only
      split_ifs <;> simp_all

theorem alice_kept :
    let db := (run step (run step (World.init ⟨4, 4, 4, 10⟩ .empty 0) aliceEnrols)
      [(.calm 0 0 [], .line 4 "LOGOUT".toList)]).db
    (⟨"alice".toList, "pw".toList⟩ : User) ∈ db.users.rows ∧
      (dbRegisterUser (.calm 0 0 []) "alice".toList "pw".toList db).1 ≠ .inserted ∧
      ((Env.calm 0 0 []).sql .verifyUser = .done →
        (dbVerifyUser (.calm 0 0 []) "alice".toList "pw".toList db = .ok ↔
          "pw".toList = (Env.calm 0 0 []).sha256Hex "pw".toList)) :=
  account_kept (u := ⟨"alice".toList, "pw".toList⟩) (by decide +kernel) _ _ _

end ChatServer
