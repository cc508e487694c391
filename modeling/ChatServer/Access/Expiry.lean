import ChatServer.Membership.Entry
import ChatServer.Replies.Status

/-! # The sessions table and its readers

REVOKE_SESSION asks neither whether the session exists nor whose it is, and
the three tests for expiry differ in the second in which a session expires.
-/

namespace ChatServer

open Library World

variable {env : Env} {w : World} {e : Event} {conn : Conn} {me : ClientPtr} {command : Cmd}
  {token : Text} {db : Database} {s : Session}

/-- The answer and the table that a user expects of REVOKE_SESSION. -/
def RevokesExactly (conn : Conn) (token user : Text) (w w' : World) : Prop :=
  if ∃ s ∈ w.db.sessions.rows, s.token = token ∧ s.username = user then
    let sessions := w.db.sessions.delete fun s => s.token = token ∧ s.username = user
    w' = { w with db := { w.db with sessions } }.replyOk conn okSent
  else w' = w.replyErr conn errSessionNotFound

theorem delete_token (hs : s ∈ db.sessions.rows) (ht : s.token = token) :
    (db.sessions.delete fun s => s.token = token) =
      db.sessions.delete fun s' => s'.token = token ∧ s'.username = s.username := by
  refine Table.ext (List.filter_congr fun s' hs' => ?_)
  by_cases htoken : s'.token = token
  · obtain rfl := db.sessions.eq_of_key hs' hs (htoken.trans ht.symm)
    simp
  · simp [htoken]

theorem reply_text_inj {w w' : World} {a b : Text} (h : w.reply conn a = w'.reply conn b)
    (hout : w.out = w'.out) : a = b := by
  simpa [World.reply, hout] using congrArg World.out h

theorem step_revokeSession (env : Env) (h : Commands w e conn me command)
    (ht : command.type = .revokeSession) (h₁ : command.arg1 = some token) :
    step w (env, e) = if env.sql .deleteSession = .done then
        let sessions := w.db.sessions.delete fun s => s.token = token
        { w with db := { w.db with sessions }, out := [], broadcasts := [] }.replyOk conn okSent
      else { w with out := [], broadcasts := [] }.replyErr conn errServerError := by
  rw [step_eq_dispatch env h (by simp [ht])]
  simp only [dispatch, ht, handleRevokeSession, h₁, sessionRevoke, dbDeleteSession]
  cases env.sql .deleteSession <;> rfl

/--
REVOKE_SESSION does what its user expects exactly if the statement runs and
the table holds a session with that token belonging to the user.
-/
theorem revoke_exact_iff (env : Env) (h : Commands w e conn me command)
    (ht : command.type = .revokeSession) (h₁ : command.arg1 = some token) :
    RevokesExactly conn token (w.client me).clientName { w with out := [], broadcasts := [] }
      (step w (env, e)) ↔
      env.sql .deleteSession = .done ∧ ∃ s ∈ w.db.sessions.rows,
        s.token = token ∧ s.username = (w.client me).clientName := by
  rw [step_revokeSession env h ht h₁, RevokesExactly]
  by_cases hsql : env.sql .deleteSession = .done
  · rw [if_pos hsql]
    by_cases hown : ∃ s ∈ w.db.sessions.rows, s.token = token ∧
        s.username = (w.client me).clientName
    · rw [if_pos hown]
      refine iff_of_true ?_ ⟨hsql, hown⟩
      obtain ⟨s, hs, htoken, huser⟩ := hown
      rw [← huser, delete_token hs htoken]
    · rw [if_neg hown]
      refine iff_of_false (fun heq => ?_) fun h => hown h.2
      exact absurd (reply_text_inj (a := formatOkReply maxLineLen okSent)
        (b := formatErrReply maxLineLen errSessionNotFound) heq rfl) (by decide)
  · rw [if_neg hsql]
    refine iff_of_false (fun heq => ?_) fun h => hsql h.1
    split_ifs at heq
    · exact absurd (reply_text_inj (a := formatErrReply maxLineLen errServerError)
        (b := formatOkReply maxLineLen okSent) heq rfl) (by decide)
    · exact absurd (reply_text_inj (a := formatErrReply maxLineLen errServerError)
        (b := formatErrReply maxLineLen errSessionNotFound) heq rfl) (by decide)

/-- Bob revokes his own session. -/
theorem bob_revokes_own :
    let w := run step (World.init ⟨4, 4, 4, 10⟩ .empty 0) aliceAndBob
    RevokesExactly ⟨5, some 1, false⟩ "t1".toList (w.client 1).clientName
      { w with out := [], broadcasts := [] }
      (step w (.calm 0 1 [], .line 5 "REVOKE_SESSION t1".toList)) := by
  intro w
  have hcmd : Commands w (.line 5 "REVOKE_SESSION t1".toList) ⟨5, some 1, false⟩ 1
      (parseLine "REVOKE_SESSION t1".toList) := ⟨_, rfl, by decide +kernel, rfl, rfl⟩
  exact (revoke_exact_iff (.calm 0 1 []) hcmd (by decide) (by decide)).mpr
    ⟨rfl, by decide +kernel⟩

/-- Bob revokes the session of Alice, and is told that all is well. -/
theorem bob_revokes_alice :
    let w := run step (World.init ⟨4, 4, 4, 10⟩ .empty 0) aliceAndBob
    ¬ RevokesExactly ⟨5, some 1, false⟩ "t0".toList (w.client 1).clientName
      { w with out := [], broadcasts := [] }
      (step w (.calm 0 1 [], .line 5 "REVOKE_SESSION t0".toList)) := by
  intro w h
  have hnone : ¬ ∃ s ∈ w.db.sessions.rows, s.token = "t0".toList ∧
      s.username = (w.client 1).clientName := by decide +kernel
  rw [RevokesExactly, if_neg hnone] at h
  exact absurd (congrArg (fun w : World => w.db.sessions.rows.length) h) (by decide +kernel)

/-- `db_validate_session` accepts a token. -/
def Accepts (env : Env) (token : Text) (db : Database) : Prop :=
  ∃ user, (dbValidateSession env token db).1 = .ok user

/-- `session_list_for_user` would list a session of its user if there were room for all. -/
def Listed (env : Env) (s : Session) (db : Database) : Prop :=
  { s with token := strncpy 65 s.token, username := strncpy maxUsernameLen s.username } ∈
    sessionListForUser env s.username db.sessions.rows.length db

/--
The three readings of expiry agree: a token is accepted exactly if its session
is listed, apart from the limit of the list, and the cleanup removes exactly
the tokens that are rejected as expired.
-/
structure ExpiryAgrees (env : Env) (db : Database) : Prop where
  accepts : ∀ token, Accepts env token db ↔
    ∃ s ∈ db.sessions.rows, s.token = token ∧ Listed env s db
  limit : ∀ user n, sessionListForUser env user n db =
    (sessionListForUser env user db.sessions.rows.length db).take n
  cleanup : ∀ s ∈ db.sessions.rows, s ∉ (dbCleanupExpiredSessions env db).2.sessions.rows ↔
    (dbValidateSession env s.token db).1 = .expired

/-- The three statements that read the expiry run to their end. -/
structure ReadsRun (env : Env) : Prop where
  validate : env.sql .validateSession = .done
  list : env.sql .listSessions = .done
  cleanup : env.sql .cleanupExpiredSessions = .done

theorem find_session (hs : s ∈ db.sessions.rows) :
    db.sessions.rows.filter (fun s' => s'.token = s.token) = [s] := by
  have hnodup : db.sessions.rows.Nodup := db.sessions.nodup.of_map
  refine List.perm_singleton.mp ((List.perm_ext_iff_of_nodup (hnodup.filter _)
    (List.nodup_singleton s)).mpr fun s' => ?_)
  rw [List.mem_filter, decide_eq_true_iff, List.mem_singleton]
  constructor
  · rintro ⟨hs', htoken⟩
    exact db.sessions.eq_of_key hs' hs htoken
  · rintro rfl
    exact ⟨hs, rfl⟩

theorem validate_row (hrun : ReadsRun env) (hs : s ∈ db.sessions.rows) (hne : s.token ≠ []) :
    (dbValidateSession env s.token db).1 =
      if s.expiresAt < env.now then .expired else .ok (strncpy maxUsernameLen s.username) := by
  simp only [dbValidateSession, hne, if_false, hrun.validate, reduceCtorEq, Sql.rows_done,
    find_session hs]
  split_ifs <;> rfl

theorem validate_empty : (dbValidateSession env [] db).1 = .notFound := rfl

theorem validate_unknown (hrun : ReadsRun env) (h : ∀ s ∈ db.sessions.rows, s.token ≠ token) :
    (dbValidateSession env token db).1 = .notFound := by
  have hnil : db.sessions.rows.filter (fun s => s.token = token) = [] :=
    List.filter_eq_nil_iff.mpr fun s hs => by simpa using h s hs
  simp only [dbValidateSession, hrun.validate, reduceCtorEq, if_false, Sql.rows_done, hnil]
  split_ifs <;> rfl

/-- The limit of a list of sessions cuts the older ones. -/
theorem sessionList_take (hrun : ReadsRun env) (user : Text) (n : ℕ) :
    sessionListForUser env user n db =
      (sessionListForUser env user db.sessions.rows.length db).take n := by
  simp only [sessionListForUser, hrun.list, Sql.rows_done, ← List.map_take]
  congr 2
  refine (List.take_of_length_le ?_).symm
  rw [List.length_insertionSort]
  exact List.length_filter_le _ _

theorem listed_iff (hrun : ReadsRun env) (hs : s ∈ db.sessions.rows) :
    Listed env s db ↔ env.now < s.expiresAt := by
  have hall : (db.sessions.rows.filter fun s' => s'.username = s.username ∧
      env.now < s'.expiresAt).length ≤ db.sessions.rows.length := List.length_filter_le _ _
  simp only [Listed, sessionListForUser, hrun.list, Sql.rows_done]
  rw [List.take_of_length_le (by rwa [List.length_insertionSort]), List.mem_map]
  constructor
  · rintro ⟨s', hs', heq⟩
    rw [List.mem_insertionSort, List.mem_filter, decide_eq_true_iff] at hs'
    rw [← (Session.mk.inj heq).2.2.2]
    exact hs'.2.2
  · intro hlive
    refine ⟨s, ?_, rfl⟩
    rw [List.mem_insertionSort, List.mem_filter, decide_eq_true_iff]
    exact ⟨hs, rfl, hlive⟩

theorem mem_cleanup (hrun : ReadsRun env) (hs : s ∈ db.sessions.rows) :
    s ∉ (dbCleanupExpiredSessions env db).2.sessions.rows ↔ s.expiresAt < env.now := by
  simp [dbCleanupExpiredSessions, hrun.cleanup, Table.delete, hs]

theorem exists_listed_iff (hrun : ReadsRun env) (hs : s ∈ db.sessions.rows) :
    (∃ s' ∈ db.sessions.rows, s'.token = s.token ∧ Listed env s' db) ↔ env.now < s.expiresAt := by
  constructor
  · rintro ⟨s', hs', htoken, hlisted⟩
    obtain rfl := db.sessions.eq_of_key hs' hs htoken
    exact (listed_iff hrun hs).mp hlisted
  · exact fun h => ⟨s, hs, rfl, (listed_iff hrun hs).mpr h⟩

theorem accepts_row (hrun : ReadsRun env) (hs : s ∈ db.sessions.rows) (hne : s.token ≠ []) :
    Accepts env s.token db ↔ env.now ≤ s.expiresAt := by
  rw [Accepts, validate_row hrun hs hne, ← not_lt]
  split_ifs with h <;> simp [h]

/--
The readings of expiry agree exactly if no session expires in this very
second; one with an empty token, which is never accepted, only if it does.
-/
theorem expiry_agrees_iff (env : Env) (db : Database) (hrun : ReadsRun env) :
    ExpiryAgrees env db ↔ ∀ s ∈ db.sessions.rows, s.expiresAt = env.now ↔ s.token = [] := by
  constructor
  · intro h s hs
    have haccepts := (h.accepts s.token).trans (exists_listed_iff hrun hs)
    have hcleanup := (mem_cleanup hrun hs).symm.trans (h.cleanup s hs)
    by_cases hne : s.token = []
    · rw [hne, validate_empty] at hcleanup
      have hout : ¬ Accepts env s.token db := by
        rintro ⟨user, huser⟩
        rw [hne, validate_empty] at huser
        cases huser
      refine iff_of_true (le_antisymm ?_ ?_) hne
      · exact not_lt.mp fun hlt => hout (haccepts.mpr hlt)
      · exact not_lt.mp fun hlt => nomatch hcleanup.mp hlt
    · rw [accepts_row hrun hs hne] at haccepts
      exact iff_of_false (fun heq => (haccepts.mp heq.ge).ne heq.symm) hne
  · intro h
    refine ⟨fun token => ?_, sessionList_take hrun, fun s hs => ?_⟩
    · by_cases hrow : ∃ s ∈ db.sessions.rows, s.token = token
      · obtain ⟨s, hs, rfl⟩ := hrow
        rw [exists_listed_iff hrun hs]
        by_cases hne : s.token = []
        · have hnow := (h s hs).mpr hne
          rw [Accepts, hne, validate_empty]
          exact iff_of_false (by rintro ⟨user, ⟨⟩⟩) hnow.not_gt
        · rw [accepts_row hrun hs hne]
          exact ⟨fun hle => hle.lt_of_ne fun heq => hne ((h s hs).mp heq.symm), le_of_lt⟩
      · refine iff_of_false ?_ fun ⟨s, hs, htoken, _⟩ => hrow ⟨s, hs, htoken⟩
        rintro ⟨user, huser⟩
        rw [validate_unknown hrun fun s hs htoken => hrow ⟨s, hs, htoken⟩] at huser
        cases huser
    · rw [mem_cleanup hrun hs]
      by_cases hne : s.token = []
      · have hnow := (h s hs).mpr hne
        rw [hne, validate_empty]
        exact iff_of_false hnow.not_lt nofun
      · rw [validate_row hrun hs hne]
        split_ifs with hlt <;> simp [hlt]

/-- A table with one session. -/
def oneSession (expiresAt : ℤ) : Database :=
  let row : Session := ⟨"t0".toList, "alice".toList, 0, expiresAt⟩
  { Database.empty with sessions := (Database.empty.sessions.insertOrReplace row) }

/-- A second before the session expires. -/
theorem expiry_agrees_before : ExpiryAgrees (.calm 0 0 []) (oneSession 2) :=
  (expiry_agrees_iff _ _ ⟨rfl, rfl, rfl⟩).mpr (by decide)

/-- In the second in which it expires, the token is accepted and not listed. -/
theorem expiry_disagrees_at : ¬ ExpiryAgrees (.calm 0 0 []) (oneSession 1) := by
  intro h
  have haccepts : Accepts (.calm 0 0 []) "t0".toList (oneSession 1) := ⟨"alice".toList, by decide⟩
  obtain ⟨s, hs, -, hlisted⟩ := (h.accepts _).mp haccepts
  have hnil : ∀ s ∈ (oneSession 1).sessions.rows, sessionListForUser (.calm 0 0 []) s.username
      (oneSession 1).sessions.rows.length (oneSession 1) = [] := by decide
  rw [Listed, hnil s hs] at hlisted
  cases hlisted

end ChatServer
