import ChatServer.Access.Tables
import ChatServer.Membership.Names

/-! # Where sessions come from

A session is created for the name that a login line establishes, with a token
generated in the same step. All other commands keep the sessions or delete some.
-/

namespace ChatServer

open Library World

/-- Every session is an old one, or a new one that meets a condition. -/
def SessionsFrom (A : Session → Prop) (db db' : Database) : Prop :=
  ∀ s ∈ db'.sessions.rows, s ∈ db.sessions.rows ∨ A s

variable {env : Env} {w : World} {db db' db'' : Database} {token : Text} {text : Text}
  {conn : Conn} {me : ClientPtr} {command : Cmd} {A B : Session → Prop}

theorem SessionsFrom.of_eq (h : db'.sessions = db.sessions) : SessionsFrom A db db' :=
  fun _ hs => .inl (h ▸ hs)

theorem SessionsFrom.trans (h₁ : SessionsFrom A db db') (h₂ : SessionsFrom A db' db'') :
    SessionsFrom A db db'' := by
  intro s hs
  rcases h₂ s hs with hs | hs
  · exact h₁ s hs
  · exact .inr hs

theorem SessionsFrom.mono (h : SessionsFrom A db db') (hAB : ∀ s, A s → B s) :
    SessionsFrom B db db' := fun s hs => (h s hs).imp_right (hAB s)

theorem mem_insertSession {row : Session} {user : Text} {ts : List Text}
    (h : row ∈ (insertSession env user ts db).2.sessions.rows) :
    row ∈ db.sessions.rows ∨ (row.token ∈ ts ∧ row.username = user) := by
  induction ts with
  | nil => exact .inl h
  | cons t ts ih =>
    simp only [insertSession] at h
    split at h
    · split at h
      · rename_i sessions hinsert
        simp only [Table.insert?] at hinsert
        split_ifs at hinsert
        obtain rfl := Option.some.inj hinsert
        rcases List.mem_append.mp h with h | h
        · exact .inl h
        · obtain rfl := List.mem_singleton.mp h
          exact .inr ⟨List.mem_cons_self, rfl⟩
      · rcases ih h with h | ⟨htoken, huser⟩
        · exact .inl h
        · exact .inr ⟨List.mem_cons_of_mem _ htoken, huser⟩
    · exact .inl h

theorem mem_deleteSession {row : Session}
    (h : row ∈ (dbDeleteSession env token db).2.sessions.rows) :
    row ∈ db.sessions.rows ∧ (env.sql .deleteSession = .done → row.token ≠ token) := by
  unfold dbDeleteSession at h
  split at h
  · obtain ⟨hmem, htoken⟩ := List.mem_filter.mp h
    exact ⟨hmem, fun _ => by simpa using htoken⟩
  · rename_i hne
    exact ⟨h, fun hsql => absurd hsql hne⟩

theorem dbDeleteSession_sessions : SessionsFrom A db (dbDeleteSession env token db).2 :=
  fun _ hs => .inl (mem_deleteSession hs).1

theorem dbCleanupExpiredSessions_sessions :
    SessionsFrom A db (dbCleanupExpiredSessions env db).2 :=
  fun _ hs => .inl (mem_cleanupExpiredSessions hs)

theorem dbValidateSession_sessions : SessionsFrom A db (dbValidateSession env token db).2 := by
  unfold dbValidateSession
  split_ifs
  · exact .of_eq rfl
  · exact .of_eq rfl
  · split
    · exact .of_eq rfl
    · split_ifs
      · exact dbDeleteSession_sessions
      · exact .of_eq rfl

theorem grantSession_sessions {status user : Text} :
    SessionsFrom (fun s => s.token ∈ env.tokens ∧ s.username = user) w.db
      (grantSession env conn status user w).db := by
  intro s hs
  unfold grantSession at hs
  split at hs
  · rename_i hcreate
    have hdb := congrArg Prod.snd hcreate
    simp only at hdb
    subst hdb
    exact mem_insertSession hs
  · rename_i hcreate
    have hdb := congrArg Prod.snd hcreate
    simp only at hdb
    subst hdb
    exact mem_insertSession hs

theorem SessionsFrom.grant {C : Text → Prop} {status user : Text} {w' : World}
    (h : SessionsFrom (fun s => s.token ∈ env.tokens ∧ C s.username) db w'.db) (hC : C user) :
    SessionsFrom (fun s => s.token ∈ env.tokens ∧ C s.username) db
      (grantSession env conn status user w').db :=
  h.trans (grantSession_sessions.mono fun _ hs => ⟨hs.1, hs.2 ▸ hC⟩)

theorem handleRegister_sessions :
    SessionsFrom (fun s => s.token ∈ env.tokens ∧ command.arg1 = some s.username) w.db
      (handleRegister env command conn w).db := by
  unfold handleRegister
  split_ifs
  · exact .of_eq rfl
  · split
    · rename_i user pw h₁ _
      have hdb {result : Registered} {db : Database}
          (h : dbRegisterUser env user pw w.db = (result, db)) :
          db.sessions = w.db.sessions := by
        have husers : SameOutside [.users] w.db (dbRegisterUser env user pw w.db).2 :=
          dbRegisterUser_writes
        rw [h] at husers
        exact husers .sessions (by simp)
      split
      · exact .of_eq (hdb ‹_›)
      · exact .of_eq (hdb ‹_›)
      · rename_i h
        split_ifs
        · exact .of_eq (hdb h)
        · split
          · exact .grant (C := fun n => command.arg1 = some n) (.of_eq (hdb h)) h₁
          · exact .of_eq (hdb h)
    · exact .of_eq rfl

theorem handleLogin_sessions :
    SessionsFrom (fun s => s.token ∈ env.tokens ∧ command.arg1 = some s.username) w.db
      (handleLogin env command conn w).db := by
  unfold handleLogin
  split_ifs
  · exact .of_eq rfl
  · split
    · rename_i h₁ _
      split
      · exact .of_eq rfl
      · exact .of_eq rfl
      · exact .of_eq rfl
      · split
        · exact .grant (C := fun n => command.arg1 = some n) (.of_eq rfl) h₁
        · exact .of_eq rfl
    · exact .of_eq rfl

theorem handleReconnect_sessions :
    SessionsFrom (fun s => s.token ∈ env.tokens ∧
        ∃ s' ∈ w.db.sessions.rows, s.username = strncpy maxUsernameLen s'.username) w.db
      (handleReconnect env command conn w).db := by
  unfold handleReconnect
  split_ifs
  · exact .of_eq rfl
  · split
    · exact .of_eq rfl
    · rename_i token _
      have hvalid {A : Session → Prop} {result : Validated} {db : Database}
          (h : dbValidateSession env token (dbCleanupExpiredSessions env w.db).2 = (result, db)) :
          SessionsFrom A w.db db := by
        have hvalidate : SessionsFrom A w.db
            (dbValidateSession env token (dbCleanupExpiredSessions env w.db).2).2 :=
          dbCleanupExpiredSessions_sessions.trans dbValidateSession_sessions
        rwa [h] at hvalidate
      split
      · exact hvalid ‹_›
      · exact hvalid ‹_›
      · exact hvalid ‹_›
      · rename_i user db h
        have hname := (session_of_validated h).imp fun s hs =>
          (⟨mem_cleanupExpiredSessions hs.1, hs.2⟩ : _ ∧ _)
        split_ifs
        · exact (hvalid h).trans dbDeleteSession_sessions
        · split
          · exact .grant
              (C := fun n => ∃ s ∈ w.db.sessions.rows, n = strncpy maxUsernameLen s.username)
              ((hvalid h).trans dbDeleteSession_sessions) hname
          · exact hvalid h

theorem handleRevokeSession_sessions :
    SessionsFrom A w.db (handleRevokeSession env command conn w).db := by
  unfold handleRevokeSession
  split
  · exact .of_eq rfl
  · rename_i token _
    have hrevoke : SessionsFrom A w.db (sessionRevoke env token w.db).2 := by
      have hdel : SessionsFrom A w.db (dbDeleteSession env token w.db).2 := dbDeleteSession_sessions
      unfold sessionRevoke
      split <;> rename_i h <;> rw [h] at hdel <;> exact hdel
    split <;> rename_i h <;> rw [h] at hrevoke <;> exact hrevoke

/-- A session that a line creates for the name it establishes. -/
def GrantedBy (env : Env) (w : World) (text : Text) (s : Session) : Prop :=
  s.token ∈ env.tokens ∧ NamedBy w text s.username

theorem SessionsFrom.argument (h : SessionsFrom
    (fun s => s.token ∈ env.tokens ∧ (parseLine text).arg1 = some s.username) w.db db) :
    SessionsFrom (GrantedBy env w text) w.db db := h.mono fun _ hs => ⟨hs.1, .argument hs.2⟩

theorem handleReconnect_granted :
    SessionsFrom (GrantedBy env w text) w.db (handleReconnect env command conn w).db := by
  refine handleReconnect_sessions.mono fun s hs => ⟨hs.1, ?_⟩
  obtain ⟨-, s', hs', hname⟩ := hs
  rw [hname]
  exact .session hs'

theorem dispatch_sessions : SessionsFrom (GrantedBy env w text) w.db
    (dispatch env (parseLine text) conn me w).db := by
  unfold dispatch
  cases ht : (parseLine text).type with
  | register => exact handleRegister_sessions.argument
  | login => exact handleLogin_sessions.argument
  | reconnect => exact handleReconnect_granted
  | logoutAll =>
    simp only [handleLogoutAll, leaveLastRoom_db]
    exact dbCleanupExpiredSessions_sessions
  | revokeSession => exact handleRevokeSession_sessions
  | _ =>
    have hwrites : SameOutside (parseLine text).type.writes w.db
        (dispatch env (parseLine text) conn me w).db := dispatch_writes
    simp only [dispatch, ht] at hwrites
    exact .of_eq (hwrites .sessions (by simp [CmdType.writes]))

theorem processLine_sessions :
    SessionsFrom (GrantedBy env w text) w.db (processLine env conn text w).1.db := by
  unfold processLine
  simp only
  split_ifs
  · exact .of_eq rfl
  · exact .of_eq rfl
  · split
    · unfold dispatchAnonymous
      split
      · exact handleRegister_sessions.argument
      · exact handleLogin_sessions.argument
      · exact handleReconnect_granted
      · exact .of_eq rfl
    · exact dispatch_sessions

/-- A step creates sessions only with its own tokens, for the name its line establishes. -/
theorem step_sessions (w : World) (env : Env) (e : Event) :
    SessionsFrom (fun s => ∃ fd text, e = .line fd text ∧ GrantedBy env w text s) w.db
      (step w (env, e)).db := by
  by_cases he : ∀ fd text, e ≠ .line fd text
  · exact .of_eq (congrArg Database.sessions (step_db he))
  · simp only [not_forall, not_not] at he
    obtain ⟨fd, text, rfl⟩ := he
    simp only [step, handleEvent]
    split
    · exact .of_eq rfl
    · exact (processLine_sessions (w := { w with out := [], broadcasts := [] })).mono fun s hs =>
        ⟨fd, text, rfl, hs.1, hs.2.of_out⟩

end ChatServer
