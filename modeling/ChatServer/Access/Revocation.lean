import ChatServer.Access.Sessions

/-! # LOGOUT_ALL

LOGOUT_ALL runs the cleanup of expired sessions, whoever they belong to. It
revokes the sessions of its user exactly if these had expired anyway.
-/

namespace ChatServer

open Library World

variable {env : Env} {w w' : World} {db db' : Database} {u token : Text} {fd : Fd} {text : Text}
  {conn : Conn} {me : ClientPtr} {command : Cmd}

def sessionsOf (u : Text) (db : Database) : List Session :=
  db.sessions.rows.filter fun s => s.username = u

/-- No RECONNECT of a later run accepts the token, unless it is generated anew. -/
def NeverAccepted (w : World) (token : Text) : Prop :=
  ∀ later : List (Env × Event), (∀ input ∈ later, token ∉ input.1.tokens) → ∀ env u,
    (dbValidateSession env token
      (dbCleanupExpiredSessions env (run step w later).db).2).1 ≠ .ok u

/-- What revoking all sessions of a user means, from one state to the next. -/
structure RevokesAll (env : Env) (u : Text) (w w' : World) : Prop where
  never : ∀ s ∈ w.db.sessions.rows, s.username = u → NeverAccepted w' s.token
  others : ∀ s, s.username ≠ u → ¬ s.expiresAt < env.now →
    (s ∈ w'.db.sessions.rows ↔ s ∈ w.db.sessions.rows)
  count : (sessionRevokeAll env u w.db).1 + (sessionsOf u w'.db).length =
    (sessionsOf u w.db).length

/-- The cleanup runs, and finds the user's sessions and no others expired. -/
structure ExactlyOwnExpired (env : Env) (u : Text) (db : Database) : Prop where
  runs : env.sql .cleanupExpiredSessions = .done
  own : ∀ s ∈ db.sessions.rows, s.username = u → s.token ≠ [] → s.expiresAt < env.now
  others : ∀ s ∈ db.sessions.rows, s.username ≠ u → ¬ s.expiresAt < env.now

/-- Every session is an old one or has a token generated in this step. -/
def Issued (env : Env) (db db' : Database) : Prop :=
  ∀ s ∈ db'.sessions.rows, s ∈ db.sessions.rows ∨ s.token ∈ env.tokens

theorem step_issued (w : World) (input : Env × Event) :
    Issued input.1 w.db (step w input).db := by
  refine (step_sessions w input.1 input.2).mono ?_
  rintro s ⟨fd, text, -, hs⟩
  exact hs.1

def NoSession (token : Text) (db : Database) : Prop := ∀ s ∈ db.sessions.rows, s.token ≠ token

theorem NoSession.run (h : NoSession token w.db) {later : List (Env × Event)}
    (hfresh : ∀ input ∈ later, token ∉ input.1.tokens) :
    NoSession token (run step w later).db := by
  have hstep : ∀ (w : World) (input : Env × Event), NoSession token w.db →
      token ∉ input.1.tokens → NoSession token (step w input).db := by
    intro w input hno hnew s hs
    rcases step_issued w input s hs with hs | hs
    · exact hno s hs
    · exact fun he => hnew (he ▸ hs)
  exact run_invariant_along hstep h (along_of_forall hfresh)

theorem exists_session_of_accepted
    (h : (dbValidateSession env token (dbCleanupExpiredSessions env db).2).1 = .ok u) :
    token ≠ [] ∧ ∃ s ∈ db.sessions.rows, s.token = token := by
  unfold dbValidateSession at h
  split_ifs at h with hnil hsql
  refine ⟨hnil, ?_⟩
  split at h
  · cases h
  · rename_i s _ hrows
    have hs := Sql.mem_of_mem_rows (hrows ▸ List.mem_cons_self)
    obtain ⟨hs, htoken⟩ := List.mem_filter.mp hs
    exact ⟨s, mem_cleanupExpiredSessions hs, of_decide_eq_true htoken⟩

theorem accepted_of_unexpired {s : Session} (hs : s ∈ db.sessions.rows) (htoken : s.token ≠ [])
    (hnow : ¬ s.expiresAt < env.now) (hsql : ∀ stmt, env.sql stmt = .done) :
    ∃ u, (dbValidateSession env s.token (dbCleanupExpiredSessions env db).2).1 = .ok u := by
  have hclean : (dbCleanupExpiredSessions env db).2.sessions =
      db.sessions.delete fun s => s.expiresAt < env.now := by
    simp only [dbCleanupExpiredSessions, hsql]
  have hmem : s ∈ (db.sessions.delete fun s => s.expiresAt < env.now).rows :=
    List.mem_filter.mpr ⟨hs, by simpa using hnow⟩
  simp only [dbValidateSession, if_neg htoken, hsql, Sql.rows_done, reduceCtorEq, if_false, hclean]
  split
  · rename_i hrows
    have : s ∈ ([] : List Session) := hrows ▸ List.mem_filter.mpr ⟨hmem, by simp⟩
    cases this
  · rename_i s' _ hrows
    have hs' := List.mem_of_mem_filter (hrows ▸ List.mem_cons_self : s' ∈ _)
    have hlive := (List.mem_filter.mp hs').2
    rw [if_neg (by simpa using hlive)]
    exact ⟨_, rfl⟩

/-- The cleanup removes as many sessions as the user loses exactly if no other user loses one. -/
theorem cleanup_count_iff (hsql : env.sql .cleanupExpiredSessions = .done) :
    (sessionRevokeAll env u db).1 + (sessionsOf u (sessionRevokeAll env u db).2).length =
        (sessionsOf u db).length ↔
      ∀ s ∈ db.sessions.rows, s.username ≠ u → ¬ s.expiresAt < env.now := by
  have hcount : (sessionRevokeAll env u db).1 =
      (db.sessions.rows.filter fun s => s.expiresAt < env.now).length := by
    simp only [sessionRevokeAll, dbCleanupExpiredSessions, hsql, Table.changes,
      List.countP_eq_length_filter]
  have hleft : sessionsOf u (sessionRevokeAll env u db).2 =
      (sessionsOf u db).filter fun s => !decide (s.expiresAt < env.now) := by
    simp only [sessionsOf, sessionRevokeAll, dbCleanupExpiredSessions, hsql, Table.delete,
      List.filter_filter, Bool.and_comm]
  have hown := (sessionsOf u db).length_eq_length_filter_add fun s => s.expiresAt < env.now
  have hexp := (db.sessions.rows.filter fun s => s.expiresAt < env.now).length_eq_length_filter_add
    fun s => s.username = u
  have hcomm : (sessionsOf u db).filter (fun s => s.expiresAt < env.now) =
      (db.sessions.rows.filter fun s => s.expiresAt < env.now).filter fun s => s.username = u := by
    simp only [sessionsOf, List.filter_filter, Bool.and_comm]
  rw [hcomm] at hown
  rw [hcount, hleft]
  have hzero : ((db.sessions.rows.filter fun s => s.expiresAt < env.now).filter
      fun s => !decide (s.username = u)).length = 0 ↔
      ∀ s ∈ db.sessions.rows, s.username ≠ u → ¬ s.expiresAt < env.now := by
    rw [List.length_eq_zero_iff, List.filter_eq_nil_iff]
    simp only [List.mem_filter, decide_eq_true_eq, Bool.not_eq_true', decide_eq_false_iff_not]
    exact ⟨fun h s hs hu he => h s ⟨hs, he⟩ hu, fun h s hs hu => h s hs.1 hu hs.2⟩
  rw [← hzero]
  omega

theorem logoutAll_db (env : Env) (hconn : w.conns.get fd = some conn) (hme : conn.me = some me)
    (ht : (parseLine text).type = .logoutAll) :
    (step w (env, .line fd text)).db = (sessionRevokeAll env (w.client me).clientName w.db).2 := by
  have hstep : step w (env, .line fd text) = handleLogoutAll env conn me
      { w with out := [], broadcasts := [] } := by
    simp [step, handleEvent, hconn, processLine, dispatch, hme, ht]
  rw [hstep]
  simp only [handleLogoutAll, World.setMe, World.replyOk_eq, World.reply_eq, World.emit_db,
    leaveLastRoom_db]
  rfl

/-- Whatever the cleanup does, a session is left that has not expired. -/
theorem mem_revokeAll_of_unexpired {s : Session} (hnow : ¬ s.expiresAt < env.now) :
    s ∈ (sessionRevokeAll env u db).2.sessions.rows ↔ s ∈ db.sessions.rows := by
  unfold sessionRevokeAll dbCleanupExpiredSessions
  split
  · simp [Table.delete, not_lt.mp hnow]
  · rfl

/--
LOGOUT_ALL does what its name says exactly if the cleanup succeeds, every
session of the user has expired, and no session of another user has.
-/
theorem logoutAll_revokes_iff (hconn : w.conns.get fd = some conn) (hme : conn.me = some me)
    (ht : (parseLine text).type = .logoutAll) :
    RevokesAll env (w.client me).clientName w (step w (env, .line fd text)) ↔
      ExactlyOwnExpired env (w.client me).clientName w.db := by
  have hdb := logoutAll_db env hconn hme ht
  constructor
  · rintro ⟨hnever, -, hcount⟩
    rw [hdb] at hcount
    have hsql : env.sql .cleanupExpiredSessions = .done := by
      by_contra hne
      have hfail : sessionRevokeAll env (w.client me).clientName w.db = (-1, w.db) := by
        unfold sessionRevokeAll dbCleanupExpiredSessions
        split
        · exact absurd ‹_› hne
        · rfl
      simp only [hfail] at hcount
      omega
    refine ⟨hsql, fun s hs hu htoken => ?_, (cleanup_count_iff hsql).mp hcount⟩
    by_contra hnow
    let now : Env := { env with sql := fun _ => .done }
    have hleft : s ∈ (step w (env, .line fd text)).db.sessions.rows := by
      rw [hdb]
      exact (mem_revokeAll_of_unexpired hnow).mpr hs
    obtain ⟨u, hok⟩ : ∃ u, (dbValidateSession now s.token _).1 = .ok u :=
      accepted_of_unexpired hleft htoken hnow fun _ => rfl
    exact hnever s hs hu [] (by simp) now u hok
  · rintro ⟨hsql, hown, hothers⟩
    refine ⟨fun s hs hu later hfresh env' u hok => ?_, fun s _ hnow => ?_, ?_⟩
    · obtain ⟨htoken, hrow⟩ := exists_session_of_accepted hok
      have hno : NoSession s.token (step w (env, .line fd text)).db := by
        intro s' hs' he
        rw [hdb] at hs'
        simp only [sessionRevokeAll, dbCleanupExpiredSessions, hsql, Table.delete,
          List.mem_filter] at hs'
        obtain rfl := w.db.sessions.eq_of_key hs'.1 hs he
        simpa [hown s' hs hu htoken] using hs'.2
      obtain ⟨s', hs', he⟩ := hrow
      exact hno.run hfresh s' hs' he
    · rw [hdb]
      exact mem_revokeAll_of_unexpired hnow
    · rw [hdb]
      exact (cleanup_count_iff hsql).mpr hothers

/-- A user has registered on a connection. -/
def registeredWorld : World :=
  run step (World.init ⟨4, 4, 4, 10⟩ .empty 0)
    [(.calm 0 0 "t0".toList, .accept 4 false),
     (.calm 0 0 "t0".toList, .line 4 "REGISTER alice pw".toList)]

/-- Two days after the first environment. -/
def twoDaysLater : Env := { Env.calm 0 0 [] with now := 172801, now_pos := by decide }

/-- Two days later the cleanup does revoke the session. -/
theorem lateLogoutAll_revokes :
    RevokesAll twoDaysLater (registeredWorld.client 0).clientName registeredWorld
      (step registeredWorld (twoDaysLater, .line 4 "LOGOUT_ALL".toList)) := by
  have hconn : registeredWorld.conns.get 4 = some ⟨4, some 0, false⟩ := by decide +kernel
  have hown : ExactlyOwnExpired twoDaysLater (registeredWorld.client 0).clientName
      registeredWorld.db := ⟨rfl, by decide +kernel, by decide +kernel⟩
  exact (logoutAll_revokes_iff hconn rfl (by decide)).mpr hown

/-- At once, the token still opens the account. -/
theorem logoutAll_not_revokes :
    ¬ RevokesAll (.calm 0 0 []) (registeredWorld.client 0).clientName registeredWorld
      (step registeredWorld (.calm 0 0 [], .line 4 "LOGOUT_ALL".toList)) := by
  intro h
  exact h.never ⟨"t0".toList, "alice".toList, 1, 86401⟩ (by decide +kernel) (by decide +kernel) []
    (by simp) (.calm 0 0 []) "alice".toList (by decide +kernel)

end ChatServer
