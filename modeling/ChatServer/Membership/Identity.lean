import ChatServer.Membership.Steps

/-! # The identity of a connection

A connection is logged in only under a name that a REGISTER, LOGIN or
RECONNECT on it has established since its last logout, and the clients of the
registry are exactly those of the open connections.
-/

namespace ChatServer

open Library World Roster

/-- A line that proves the right to a name on a connection. -/
def Establishes (w : World) (input : Env × Event) (fd : Fd) (n : Text) : Prop :=
  ∃ text, input.2 = .line fd text ∧
    (((parseLine text).type = .register ∧ (parseLine text).arg1 = some n ∧
        ∃ pw, (parseLine text).arg2 = some pw ∧
          (dbRegisterUser input.1 n pw w.db).1 = .inserted) ∨
      ((parseLine text).type = .login ∧ (parseLine text).arg1 = some n ∧
        ∃ pw, (parseLine text).arg2 = some pw ∧ dbVerifyUser input.1 n pw w.db = .ok) ∨
      ((parseLine text).type = .reconnect ∧ ∃ token, (parseLine text).arg1 = some token ∧
        (dbValidateSession input.1 token
          (dbCleanupExpiredSessions input.1 w.db).2).1 = .ok n))

/-- A logout on a connection, or its end. -/
def EndsLogin (fd : Fd) (input : Env × Event) : Prop :=
  input.2 = .disconnect fd ∨ ∃ text, input.2 = .line fd text ∧
    ((parseLine text).type = .logout ∨ (parseLine text).type = .logoutAll)

/-- A connection is logged in as a client of a given name. -/
def LoggedInAs (fd : Fd) (n : Text) (w : World) : Prop :=
  ∃ c, w.roster.conns fd = some (some c) ∧ w.roster.name c = n

variable {w : World} {env : Env} {e : Event} {fd : Fd} {c : ClientPtr} {n : Text}

theorem establishes_of_login (h : Does env w e (.login fd c n)) : Establishes w (env, e) fd n := by
  rcases h with _ | ⟨hconn, hp⟩
  cases hp with
  | register ht hme h₁ h₂ hdb =>
    obtain rfl := w.conns.fd_eq _ _ hconn
    exact ⟨_, rfl, .inl ⟨ht, h₁, _, h₂, hdb⟩⟩
  | login ht hme h₁ h₂ hdb =>
    obtain rfl := w.conns.fd_eq _ _ hconn
    exact ⟨_, rfl, .inr (.inl ⟨ht, h₁, _, h₂, hdb⟩)⟩
  | reconnect ht hme h₁ hdb =>
    obtain rfl := w.conns.fd_eq _ _ hconn
    exact ⟨_, rfl, .inr (.inr ⟨ht, _, h₁, hdb⟩)⟩

theorem leads_conns {s t : ChatRoster} {P : ChatAct → Prop} (h : Leads P s t) (hs : s.Sound)
    (ht : t.conns fd = some (some c)) :
    (∃ n, P (.login fd c n) ∧ t.name c = n) ∨
      (s.conns fd = some (some c) ∧ t.name c = s.name c) := by
  refine (h.invariant (I := fun t => t.Sound ∧ ∀ c, t.conns fd = some (some c) →
    (∃ n, P (.login fd c n) ∧ t.name c = n) ∨
      (s.conns fd = some (some c) ∧ t.name c = s.name c)) ?_
    ⟨hs, fun c hc => .inr ⟨hc, rfl⟩⟩).2 c ht
  rintro t a ⟨ht, hi⟩ ⟨hP, ha⟩
  refine ⟨ht.apply ha, fun c hc => ?_⟩
  cases a with
  | login fd' c' n =>
    rcases eq_or_ne fd fd' with rfl | hne
    · obtain rfl : c' = c := by simpa [Roster.apply] using hc
      exact .inl ⟨n, hP, by simp [Roster.apply]⟩
    · have hc' : t.conns fd = some (some c) := by simpa [Roster.apply, hne] using hc
      have hcc : c ≠ c' := fun he => ha.2 (he ▸ (ht.linked.mem_of_conn hc').1)
      simpa [Roster.apply, hcc] using hi c hc'
  | connect fd' =>
    have hne : fd ≠ fd' := by rintro rfl; simp [Roster.apply] at hc
    exact hi c (by simpa [Roster.apply, hne] using hc)
  | hangup fd' =>
    have hne : fd ≠ fd' := by rintro rfl; simp [Roster.apply] at hc
    exact hi c (by simpa [Roster.apply, hne] using hc)
  | logout fd' c' =>
    have hne : fd ≠ fd' := by rintro rfl; simp [Roster.apply] at hc
    exact hi c (by simpa [Roster.apply, hne] using hc)
  | create r c' n cap => exact hi c hc
  | close r => exact hi c hc
  | enter c' r n => exact hi c hc
  | sit c' r n => exact hi c hc
  | leave c' r => exact hi c hc
  | promote r c' => exact hi c hc

theorem not_loggedIn_of_endsLogin (hin : LoggedInAs fd n w) (he : EndsLogin fd (env, e))
    (c : ClientPtr) :
    (step w (env, e)).roster.conns fd ≠ some (some c) := by
  obtain ⟨c₀, hc₀, -⟩ := hin
  obtain ⟨conn, hconn, hme⟩ := roster_conns_eq_some.mp hc₀
  obtain rfl := w.conns.fd_eq _ _ hconn
  have key : ∀ {w' : World}, w'.conns.get conn.fd = some { conn with me := none } ∨
      w'.conns.get conn.fd = none → w'.roster.conns conn.fd ≠ some (some c) := by
    rintro w' (h | h) <;> simp [World.roster, rosterOf, h]
  rcases he with rfl | ⟨text, rfl, ht⟩
  · refine key (.inr ?_)
    simp [step, handleEvent, hconn, disconnectCleanup, Conns.remove]
  · refine key (.inl ?_)
    rcases ht with ht | ht
    · simp [step, handleEvent, hconn, processLine, hme, dispatch, ht, handleLogout, setMe,
        Conns.set]
    · simp [step, handleEvent, hconn, processLine, hme, dispatch, ht, handleLogoutAll, setMe,
        Conns.set]

/-- A step logs a connection in under an established name, or keeps it logged in. -/
theorem loggedInAs_step {input : Env × Event} (hs : w.roster.Sound)
    (h : LoggedInAs fd n (step w input)) :
    Establishes w input fd n ∨ (LoggedInAs fd n w ∧ ¬ EndsLogin fd input) := by
  obtain ⟨env, e⟩ := input
  obtain ⟨c, hc, hn⟩ := h
  rcases leads_conns (step_leads w env e) hs hc with ⟨n', hlogin, hn'⟩ | ⟨hc', hn'⟩
  · rw [hn] at hn'
    subst hn'
    exact .inl (establishes_of_login hlogin)
  · have hin : LoggedInAs fd n w := ⟨c, hc', hn' ▸ hn⟩
    exact .inr ⟨hin, fun he => not_loggedIn_of_endsLogin hin he c hc⟩

/--
In every reachable state, a connection's client is in the client list under
the connection's descriptor, its name was established on the connection since
the last logout, and each client belongs to exactly one connection.
-/
theorem identity_authenticated (cfg : Config) (db : Database) (start : ℤ)
    (inputs : List (Env × Event)) :
    let w := run step (World.init cfg db start) inputs
    (∀ fd conn c, w.conns.get fd = some conn → conn.me = some c →
      c ∈ w.reg.clientList ∧ (w.client c).socketFd = conn.fd ∧
      ∃ pre input post, inputs = pre ++ input :: post ∧
        Establishes (run step (World.init cfg db start) pre) input fd (w.client c).clientName ∧
        ∀ x ∈ post, ¬ EndsLogin fd x) ∧
    (∀ c ∈ w.reg.clientList, ∃! fd, ∃ conn, w.conns.get fd = some conn ∧ conn.me = some c) := by
  intro w
  have hs : w.roster.Sound := run_sound
  refine ⟨fun fd conn c hconn hme => ?_, fun c hc => ?_⟩
  · have hc : w.roster.conns fd = some (some c) := roster_conns_eq_some.mpr ⟨conn, hconn, hme⟩
    obtain ⟨hmem, hfd⟩ := hs.linked.mem_of_conn hc
    obtain rfl := w.conns.fd_eq _ _ hconn
    refine ⟨hmem, hfd, ?_⟩
    refine run_origin step (J := fun w => w.roster.Sound)
      (Q := LoggedInAs conn.fd (w.client c).clientName)
      (M := fun w input => Establishes w input conn.fd _) (E := EndsLogin conn.fd)
      (fun w input h => (step_leads w input.1 input.2).sound h)
      (fun w input h hq => loggedInAs_step h hq) (roster_init cfg db start).sound ?_ inputs
      ⟨c, hc, rfl⟩
    rintro ⟨c', hc', -⟩
    rw [(roster_init cfg db start).conns] at hc'
    cases hc'
  · have hconn := hs.linked.conn_of_mem hc
    refine ⟨_, roster_conns_eq_some.mp hconn, fun fd hfd => ?_⟩
    exact (hs.linked.mem_of_conn (roster_conns_eq_some.mpr hfd)).2.symm

end ChatServer
