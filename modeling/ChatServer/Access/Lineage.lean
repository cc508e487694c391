import ChatServer.Access.Accounts
import ChatServer.Access.Sessions
import ChatServer.Membership.Identity

/-! # Where a login comes from

A token stands for a password that was given once. Each session of the table was
handed, as the only answer to a line, to the connection that had proved its
name: with a password, or with a token that was handed out in the same way.
-/

namespace ChatServer

open Library World

/-- The answer that carries a token. -/
def tokenLine (conn : Conn) (status token : Text) : Output :=
  ⟨conn.fd, conn.channel, { bytes := formatOkSession maxLineLen status token }⟩

/-- A line proves a name on a connection, and its one answer is a token. -/
structure HandsOut (w : World) (env : Env) (fd : Fd) (text token n : Text) : Prop where
  proved : Credential env w.db (parseLine text) n
  answered : ∃ conn status, w.conns.get fd = some conn ∧ conn.me = none ∧
    (step w (env, .line fd text)).out = [tokenLine conn status token]

/-- The token was handed out for the name, on a password or on a token with a lineage. -/
inductive Lineage (w₀ : World) : List (Env × Event) → Text → Text → Prop
  | found {inputs : List (Env × Event)} {s : Session} (hs : s ∈ w₀.db.sessions.rows) :
      Lineage w₀ inputs s.token s.username
  | password {past later : List (Env × Event)} {env : Env} {fd : Fd} {text token n : Text}
      (granted : HandsOut (run step w₀ past) env fd text token n)
      (ht : (parseLine text).type ≠ .reconnect) :
      Lineage w₀ (past ++ (env, .line fd text) :: later) token n
  | session {past later : List (Env × Event)} {env : Env} {fd : Fd} {text old token n : Text}
      (granted : HandsOut (run step w₀ past) env fd text token n)
      (ht : (parseLine text).type = .reconnect) (h₁ : (parseLine text).arg1 = some old)
      (held : Lineage w₀ past old n) :
      Lineage w₀ (past ++ (env, .line fd text) :: later) token n

/-- The name was proved on the connection by a line, and kept since. -/
def Proved (w₀ : World) (inputs : List (Env × Event)) (fd : Fd) (n : Text) : Prop :=
  ∃ past env text later, inputs = past ++ (env, .line fd text) :: later ∧
    Credential env (run step w₀ past).db (parseLine text) n ∧
    (∀ old, (parseLine text).type = .reconnect → (parseLine text).arg1 = some old →
      Lineage w₀ past old n) ∧
    ∀ x ∈ later, ¬ EndsLogin fd x

variable {env : Env} {w w₀ : World} {e : Event} {command : Cmd} {conn : Conn} {me : ClientPtr}
  {db : Database} {n text token : Text} {fd : Fd} {s : Session} {A : Session → Prop}
  {inputs : List (Env × Event)}

theorem Lineage.append (h : Lineage w₀ inputs token n) (later : List (Env × Event)) :
    Lineage w₀ (inputs ++ later) token n := by
  cases h with
  | found hs => exact .found hs
  | password granted ht =>
    rw [List.append_assoc, List.cons_append]
    exact .password granted ht
  | session granted ht h₁ held =>
    rw [List.append_assoc, List.cons_append]
    exact .session granted ht h₁ held

theorem insertSession_new {user : Text} {ts : List Text}
    (hs : s ∈ (insertSession env user ts db).2.sessions.rows) (hnew : s ∉ db.sessions.rows) :
    (insertSession env user ts db).1 = some s.token ∧ s.username = user := by
  induction ts with
  | nil => exact absurd hs hnew
  | cons t ts ih =>
    simp only [insertSession] at hs ⊢
    split at hs
    · split at hs
      · rename_i sessions hinsert
        have hrows := hinsert
        simp only [Table.insert?] at hrows
        split_ifs at hrows
        obtain rfl := Option.some.inj hrows
        rcases List.mem_append.mp hs with hold | hlast
        · exact absurd hold hnew
        · obtain rfl := List.mem_singleton.mp hlast
          exact ⟨rfl, rfl⟩
      · exact ih hs
    · exact absurd hs hnew

theorem grantSession_new {status user : Text}
    (hs : s ∈ (grantSession env conn status user w).db.sessions.rows)
    (hnew : s ∉ w.db.sessions.rows) : s.username = user ∧
      (grantSession env conn status user w).out = w.out ++ [tokenLine conn status s.token] := by
  rcases hcreate : dbCreateSession env user w.db with ⟨answer, db⟩
  have hdb : (grantSession env conn status user w).db = db := by
    rw [grantSession, hcreate]
    cases answer <;> rfl
  have hinsert : s ∈ (dbCreateSession env user w.db).2.sessions.rows := by
    rw [hcreate]
    exact hdb ▸ hs
  obtain ⟨htoken, huser⟩ := insertSession_new hinsert hnew
  obtain rfl : answer = some s.token := by
    rw [← htoken, ← dbCreateSession, hcreate]
  refine ⟨huser, ?_⟩
  rw [grantSession, hcreate]
  rfl

/-- A session that the line's outcome hands to its connection. -/
def Handed (env : Env) (w : World) (command : Cmd) (conn : Conn) (w' : World) (s : Session) :
    Prop :=
  Credential env w.db command s.username ∧ conn.me = none ∧
    ∃ status, w'.out = w.out ++ [tokenLine conn status s.token]

theorem SessionsFrom.handed {status user : Text} {w' : World}
    (h : SessionsFrom (fun _ => False) w.db w'.db) (hout : w'.out = w.out) (hme : conn.me = none)
    (proved : Credential env w.db command user) :
    SessionsFrom (Handed env w command conn (grantSession env conn status user w')) w.db
      (grantSession env conn status user w').db := by
  intro s hs
  by_cases hold : s ∈ w'.db.sessions.rows
  · exact .inl ((h s hold).resolve_right id)
  · obtain ⟨huser, hanswer⟩ := grantSession_new hs hold
    exact .inr ⟨huser ▸ proved, hme, status, hout ▸ hanswer⟩

theorem handleRegister_handed (ht : command.type = .register) :
    SessionsFrom (Handed env w command conn (handleRegister env command conn w)) w.db
      (handleRegister env command conn w).db := by
  unfold handleRegister
  split_ifs with hme
  · exact .of_eq rfl
  · rw [not_not] at hme
    split
    · rename_i user pw h₁ h₂
      have hdb {result : Registered} {db : Database}
          (h : dbRegisterUser env user pw w.db = (result, db)) :
          db.sessions = w.db.sessions := by
        have husers : SameOutside [.users] w.db (dbRegisterUser env user pw w.db).2 :=
          dbRegisterUser_writes
        rw [h] at husers
        exact husers .sessions (by simp)
      split
      · exact .of_eq (hdb ‹_›)
      · exact .of_eq (hdb ‹_›)
      · rename_i h
        split_ifs
        · exact .of_eq (hdb h)
        · split
          · exact SessionsFrom.handed (.of_eq (hdb h)) rfl hme
              (.register ht h₁ h₂ (congrArg Prod.fst h))
          · exact .of_eq (hdb h)
    · exact .of_eq rfl

theorem handleLogin_handed (ht : command.type = .login) :
    SessionsFrom (Handed env w command conn (handleLogin env command conn w)) w.db
      (handleLogin env command conn w).db := by
  unfold handleLogin
  split_ifs with hme
  · exact .of_eq rfl
  · rw [not_not] at hme
    split
    · rename_i h₁ h₂
      split
      · exact .of_eq rfl
      · exact .of_eq rfl
      · exact .of_eq rfl
      · split
        · exact SessionsFrom.handed (.of_eq rfl) rfl hme (.password ht h₁ h₂ ‹_›)
        · exact .of_eq rfl
    · exact .of_eq rfl

theorem handleReconnect_handed (ht : command.type = .reconnect) :
    SessionsFrom (Handed env w command conn (handleReconnect env command conn w)) w.db
      (handleReconnect env command conn w).db := by
  unfold handleReconnect
  split_ifs with hme
  · exact .of_eq rfl
  · rw [not_not] at hme
    split
    · exact .of_eq rfl
    · rename_i token h₁
      have hvalid {A : Session → Prop} {result : Validated} {db : Database}
          (h : dbValidateSession env token (dbCleanupExpiredSessions env w.db).2 = (result, db)) :
          SessionsFrom A w.db db := by
        have hvalidate : SessionsFrom A w.db
            (dbValidateSession env token (dbCleanupExpiredSessions env w.db).2).2 :=
          dbCleanupExpiredSessions_sessions.trans dbValidateSession_sessions
        rwa [h] at hvalidate
      split
      · exact hvalid ‹_›
      · exact hvalid ‹_›
      · exact hvalid ‹_›
      · rename_i user db h
        split_ifs
        · exact (hvalid h).trans dbDeleteSession_sessions
        · split
          · exact SessionsFrom.handed ((hvalid h).trans dbDeleteSession_sessions) rfl hme
              (.session ht h₁ (congrArg Prod.fst h))
          · exact hvalid h

theorem dispatch_noSession (hme : conn.me = some me) :
    SessionsFrom A w.db (dispatch env command conn me w).db := by
  have hin : conn.me ≠ none := by simp [hme]
  unfold dispatch
  cases ht : command.type with
  | register => exact .of_eq (by rw [handleRegister, if_pos hin]; rfl)
  | login => exact .of_eq (by rw [handleLogin, if_pos hin]; rfl)
  | reconnect => exact .of_eq (by rw [handleReconnect, if_pos hin]; rfl)
  | logoutAll =>
    simp only [handleLogoutAll, leaveLastRoom_db]
    exact dbCleanupExpiredSessions_sessions
  | revokeSession => exact handleRevokeSession_sessions
  | _ =>
    have hwrites : SameOutside command.type.writes w.db
        (dispatch env command conn me w).db := dispatch_writes
    simp only [dispatch, ht] at hwrites
    exact .of_eq (hwrites .sessions (by simp [CmdType.writes]))

theorem processLine_handed :
    SessionsFrom (Handed env w (parseLine text) conn (processLine env conn text w).1) w.db
      (processLine env conn text w).1.db := by
  unfold processLine
  simp only
  split_ifs
  · exact .of_eq rfl
  · exact .of_eq rfl
  · cases hme : conn.me with
    | none =>
      simp only [dispatchAnonymous]
      split
      · exact handleRegister_handed ‹_›
      · exact handleLogin_handed ‹_›
      · exact handleReconnect_handed ‹_›
      · exact .of_eq rfl
    | some me => exact dispatch_noSession hme

/-- A step that creates a session answers with its token, and with nothing else. -/
theorem handsOut_of_new (hs : s ∈ (step w (env, e)).db.sessions.rows)
    (hnew : s ∉ w.db.sessions.rows) :
    ∃ fd text, e = .line fd text ∧ HandsOut w env fd text s.token s.username := by
  by_cases he : ∀ fd text, e ≠ .line fd text
  · rw [step_db he] at hs
    exact absurd hs hnew
  · simp only [not_forall, not_not] at he
    obtain ⟨fd, text, rfl⟩ := he
    refine ⟨fd, text, rfl, ?_⟩
    cases hconn : w.conns.get fd with
    | none =>
      simp only [step, handleEvent, hconn] at hs
      exact absurd hs hnew
    | some conn =>
      have hstep : step w (env, .line fd text) =
          (processLine env conn text { w with out := [], broadcasts := [] }).1 := by
        simp only [step, handleEvent, hconn]
      rw [hstep] at hs
      obtain ⟨proved, hme, status, hout⟩ := (processLine_handed s hs).resolve_left hnew
      exact ⟨proved, conn, status, hconn, hme, by rw [hstep, hout]; rfl⟩

theorem session_of_accepted (hdb : db.Signed)
    (h : (dbValidateSession env token (dbCleanupExpiredSessions env db).2).1 = .ok n) :
    ∃ s ∈ db.sessions.rows, s.token = token ∧ s.username = n := by
  unfold dbValidateSession at h
  split_ifs at h
  split at h
  · cases h
  · rename_i s _ hrows
    have hmem := Sql.mem_of_mem_rows (hrows ▸ List.mem_cons_self)
    obtain ⟨hs, htoken⟩ := List.mem_filter.mp hmem
    have hold := mem_cleanupExpiredSessions hs
    split_ifs at h
    obtain rfl := Validated.ok.inj h
    exact ⟨s, hold, of_decide_eq_true htoken,
      (strncpy_of_not_badLength (hdb .sessions s hold).2).symm⟩

theorem credential_of_establishes (h : Establishes w (env, e) fd n) :
    ∃ text, e = .line fd text ∧ Credential env w.db (parseLine text) n := by
  obtain ⟨text, rfl, ⟨ht, h₁, pw, h₂, hins⟩ | ⟨ht, h₁, pw, h₂, hverified⟩ |
    ⟨ht, token, h₁, hvalid⟩⟩ := h
  · exact ⟨text, rfl, .register ht h₁ h₂ hins⟩
  · exact ⟨text, rfl, .password ht h₁ h₂ hverified⟩
  · exact ⟨text, rfl, .session ht h₁ hvalid⟩

theorem Credential.held {past : List (Env × Event)} {old : Text} (hdb : db.Signed)
    (hrooted : ∀ s ∈ db.sessions.rows, Lineage w₀ past s.token s.username)
    (h : Credential env db command n) (ht : command.type = .reconnect)
    (h₁ : command.arg1 = some old) : Lineage w₀ past old n := by
  cases h with
  | register ht' => rw [ht'] at ht; cases ht
  | password ht' => rw [ht'] at ht; cases ht
  | session ht' h₁' validated =>
    obtain ⟨s, hs, rfl, rfl⟩ := session_of_accepted hdb validated
    obtain rfl := Option.some.inj (h₁'.symm.trans h₁)
    exact hrooted s hs

/-- Every session of a run has a lineage. -/
theorem session_lineage (cfg : Config) (start : ℤ) (h : db.Signed) (inputs : List (Env × Event)) :
    ∀ s ∈ (run step (World.init cfg db start) inputs).db.sessions.rows,
      Lineage (World.init cfg db start) inputs s.token s.username := by
  induction inputs using List.reverseRecOn with
  | nil => exact fun s hs => .found hs
  | append_singleton past input ih =>
    intro s hs
    rw [run_concat] at hs
    by_cases hold : s ∈ (run step (World.init cfg db start) past).db.sessions.rows
    · exact (ih s hold).append [input]
    · obtain ⟨env, e⟩ := input
      obtain ⟨fd, text, rfl, granted⟩ := handsOut_of_new hs hold
      by_cases ht : (parseLine text).type = .reconnect
      · have hdb := (run_accounted cfg start past h).db
        cases hproved : granted.proved with
        | register ht' => rw [ht'] at ht; cases ht
        | password ht' => rw [ht'] at ht; cases ht
        | session _ h₁ _ => exact .session granted ht h₁ (granted.proved.held hdb ih ht h₁)
      · exact .password granted ht

theorem login_proved (cfg : Config) (start : ℤ) (h : db.Signed) (inputs : List (Env × Event))
    (hin : LoggedInAs fd n (run step (World.init cfg db start) inputs)) :
    Proved (World.init cfg db start) inputs fd n := by
  have hfresh : ¬ LoggedInAs fd n (World.init cfg db start) := by
    rintro ⟨c, hc, -⟩
    rw [(roster_init cfg db start).conns] at hc
    cases hc
  obtain ⟨past, ⟨env, e⟩, later, rfl, hname, hkept⟩ := run_origin step
    (J := fun w => w.roster.Sound) (Q := LoggedInAs fd n)
    (M := fun w input => Establishes w input fd n) (E := EndsLogin fd)
    (fun w input hs => (step_leads w input.1 input.2).sound hs)
    (fun w input hs hq => loggedInAs_step hs hq) (roster_init cfg db start).sound hfresh inputs hin
  obtain ⟨text, rfl, proved⟩ := credential_of_establishes hname
  have hdb := (run_accounted cfg start past h).db
  exact ⟨past, env, text, later, rfl, proved,
    fun old ht h₁ => proved.held hdb (session_lineage cfg start h past) ht h₁, hkept⟩

/--
However the server is run, each session's token was handed to one connection,
which had proved the name by a password or by a token with a lineage, and each
connection that is logged in proved its name so and has not logged out since.
-/
theorem run_lineage (cfg : Config) (start : ℤ) (h : db.Signed) (inputs : List (Env × Event)) :
    let w₀ := World.init cfg db start
    let w := run step w₀ inputs
    (∀ s ∈ w.db.sessions.rows, Lineage w₀ inputs s.token s.username) ∧
      ∀ fd n, LoggedInAs fd n w → Proved w₀ inputs fd n :=
  ⟨session_lineage cfg start h inputs, fun _ _ => login_proved cfg start h inputs⟩

/-- Alice registers, loses her connection and comes back with her token. -/
def aliceReturns : List (Env × Event) :=
  aliceEnrols ++ [(.calm 0 0 [], .disconnect 4), (.calm 0 0 [], .accept 5 false),
    (.calm 0 0 "t1".toList, .line 5 "RECONNECT t0".toList)]

theorem aliceReturns_lineage :
    Lineage (World.init ⟨4, 4, 4, 10⟩ .empty 0) aliceReturns "t1".toList "alice".toList :=
  (run_lineage ⟨4, 4, 4, 10⟩ 0 signed_empty aliceReturns).1
    ⟨"t1".toList, "alice".toList, 1, 86401⟩ (by decide +kernel)

end ChatServer
