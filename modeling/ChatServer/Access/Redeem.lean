import Mathlib.Data.Fintype.Defs
import ChatServer.Access.Sessions
import ChatServer.Library.Interleave

/-! # Redeeming a session token

RECONNECT as the calls it makes, which other connections' calls may come
between. A token is checked when it is read and removed only after the client
has been created, so two handlers can redeem it unless one is done first.
-/

namespace ChatServer

open Library World

/-- How a RECONNECT was answered. -/
inductive Answer where
  | reconnected
  | refused (errCode : Text)
  deriving DecidableEq, Repr

/-- The call a RECONNECT handler makes next. -/
inductive Phase where
  | cleanup
  | validate
  | expire
  | userExists (username : Text)
  | dropUnknown
  | findClient (username : Text)
  | createClient (username : Text) (force : Bool)
  | deleteSession (username : Text)
  | createSession (username : Text)
  | answered (answer : Answer)
  deriving DecidableEq, Repr

/--
One call of the RECONNECT handler of a connection, with what the handler does
before its next call. An expired token is deleted by a call of its own.
-/
def reconnectCall (conn : Conn) (token : Text) (s : World × Phase) (env : Env) : World × Phase :=
  let (w, phase) := s
  match phase with
  | .cleanup =>
    if conn.me ≠ none then
      (w.replyErr conn errAlreadyRegistered, .answered (.refused errAlreadyRegistered))
    else ({ w with db := (dbCleanupExpiredSessions env w.db).2 }, .validate)
  | .validate =>
    match (dbValidateSession env token w.db).1 with
    | .notFound => (w.replyErr conn errInvalidToken, .answered (.refused errInvalidToken))
    | .expired => (w, .expire)
    | .error => (w.replyErr conn errServerError, .answered (.refused errServerError))
    | .ok username => (w, .userExists username)
  | .expire =>
    ({ w with db := (dbDeleteSession env token w.db).2 }.replyErr conn errSessionExpired,
      .answered (.refused errSessionExpired))
  | .userExists username =>
    if !dbUserExists env username w.db then (w.replyErr conn errUnknownUser, .dropUnknown)
    else (w, .findClient username)
  | .dropUnknown =>
    ({ w with db := (dbDeleteSession env token w.db).2 }, .answered (.refused errUnknownUser))
  | .findClient username =>
    (w, .createClient username (findClient (some username) w.reg).2.isSome)
  | .createClient username force =>
    match createClientWith env (!force) conn.fd username w.reg with
    | (.ok, me, reg) => ({ w with reg }.setMe conn me, .deleteSession username)
    | (err, _, reg) =>
      (({ w with reg }.setMe conn none).replyErr conn (reconnectErr err),
        .answered (.refused (reconnectErr err)))
  | .deleteSession username =>
    ({ w with db := (dbDeleteSession env token w.db).2 }, .createSession username)
  | .createSession username =>
    (grantSession env conn okReconnected username w, .answered .reconnected)
  | .answered answer => (w, .answered answer)

variable {env : Env} {w : World} {command : Cmd} {conn : Conn} {token : Text}

theorem dbValidateSession_snd {db db' : Database} {res : Validated}
    (h : dbValidateSession env token db = (res, db')) :
    db' = if res = .expired then (dbDeleteSession env token db).2 else db := by
  unfold dbValidateSession at h
  split_ifs at h with htok hprep
  · cases h; rfl
  · cases h; rfl
  · split at h
    · cases h; rfl
    · split_ifs at h
      · cases h; rfl
      · cases h; rfl

theorem run_answered (w : World) (answer : Answer) (envs : List Env) :
    run (reconnectCall conn token) (w, .answered answer) envs = (w, .answered answer) := by
  induction envs with
  | nil => rfl
  | cons env envs ih => exact ih

/-- Seven calls that nothing comes between are the handler of RECONNECT. -/
theorem reconnect_uninterrupted (h₁ : command.arg1 = some token) :
    (run (reconnectCall conn token) (w, .cleanup) (List.replicate 7 env)).1 =
      handleReconnect env command conn w := by
  unfold handleReconnect
  simp only [List.replicate]
  rw [run_cons]
  by_cases hme : conn.me = none
  · rcases hval : dbValidateSession env token (dbCleanupExpiredSessions env w.db).2 with ⟨res, db⟩
    have hdb := dbValidateSession_snd hval
    simp only [reconnectCall, hme, ne_eq, not_true, if_false, h₁, hval]
    rw [run_cons]
    simp only [reconnectCall, hval]
    cases res with
    | notFound =>
      obtain rfl : db = (dbCleanupExpiredSessions env w.db).2 := hdb
      rw [run_answered]
    | expired =>
      obtain rfl : db = (dbDeleteSession env token (dbCleanupExpiredSessions env w.db).2).2 := hdb
      rw [run_cons]
      simp only [reconnectCall]
      rw [run_answered]
    | error =>
      obtain rfl : db = (dbCleanupExpiredSessions env w.db).2 := hdb
      rw [run_answered]
    | ok username =>
      obtain rfl : db = (dbCleanupExpiredSessions env w.db).2 := hdb
      simp only
      rw [run_cons]
      by_cases huser : dbUserExists env username (dbCleanupExpiredSessions env w.db).2
      · simp only [reconnectCall, huser, Bool.not_true, Bool.false_eq_true, if_false,
          replaceClient_eq]
        rw [run_cons]
        simp only [reconnectCall]
        rw [run_cons]
        simp only [reconnectCall]
        rcases createClientWith env (!(findClient (some username) w.reg).2.isSome) conn.fd username
          w.reg with ⟨err, me, reg⟩
        cases err with
        | ok => rfl
        | _ =>
          simp only
          rw [run_answered]
      · simp only [reconnectCall, huser, Bool.not_false, if_true]
        rw [run_cons]
        simp only [reconnectCall]
        rw [run_answered]
        rfl
  · simp only [reconnectCall, hme, ne_eq, not_false_eq_true, if_true]
    rw [run_answered]

section Race

variable {ι : Type*} [DecidableEq ι] (conns : ι → Conn) (tokens : ι → Text)

/-- One call of one of the handlers, each on a connection of its own. -/
abbrev race : Threads ι World Phase → ι × Env → Threads ι World Phase :=
  Threads.step fun i => reconnectCall (conns i) (tokens i)

/-- No handler has made a call. -/
def raceStart (w : World) : Threads ι World Phase := ⟨w, fun _ => .cleanup⟩

/-- A handler that runs alone is the handler of RECONNECT. -/
theorem race_uninterrupted (i : ι) (h₁ : command.arg1 = some (tokens i)) :
    (run (race conns tokens) (raceStart w) (List.replicate 7 (i, env))).shared =
      handleReconnect env command (conns i) w := by
  have hsolo := Threads.run_solo (fun i => reconnectCall (conns i) (tokens i)) i (raceStart w)
    (List.replicate 7 env)
  rw [List.map_replicate] at hsolo
  rw [← reconnect_uninterrupted h₁]
  exact (Prod.ext_iff.mp hsolo).1

/-- A session with the token is stored and has not expired. -/
def Redeemable (db : Database) (token : Text) (now : ℤ) : Prop :=
  ∃ row ∈ db.sessions.rows, row.token = token ∧ now ≤ row.expiresAt

/-- The handler has its client and is about to delete the token. -/
def Phase.isDeleting : Phase → Bool
  | .deleteSession _ => true
  | _ => false

/-- The handler has its client: it will answer that the connection is logged in. -/
def Phase.Redeeming : Phase → Prop
  | .deleteSession _ => True
  | .createSession _ => True
  | .answered answer => answer = .reconnected
  | _ => False

instance : DecidablePred Phase.Redeeming
  | .deleteSession _ => isTrue trivial
  | .createSession _ => isTrue trivial
  | .answered answer => inferInstanceAs (Decidable (answer = .reconnected))
  | .cleanup => isFalse id
  | .validate => isFalse id
  | .expire => isFalse id
  | .userExists _ => isFalse id
  | .dropUnknown => isFalse id
  | .findClient _ => isFalse id
  | .createClient _ _ => isFalse id

/-- What a handler in a phase must find so that tokens are redeemed in turn. -/
def Phase.InTurn (s : Threads ι World Phase) (i : ι) (env : Env) : Phase → Prop
  | .createClient username force =>
    (createClientWith env (!force) (conns i).fd username s.shared.reg).1 = .ok →
      (∃ row ∈ s.shared.db.sessions.rows, row.token = tokens i) ∧
        ∀ j, j ≠ i → tokens j = tokens i → (s.loc j).isDeleting = false
  | .deleteSession _ => env.sql .deleteSession = .done
  | .createSession _ => ∀ j, (s.loc j).Redeeming → tokens j ∉ env.tokens
  | _ => True

/--
A handler that gets its client finds the token still stored and no other
handler about to delete it; the deletion of a redeemed token succeeds; a new
token is not one that a handler has redeemed.
-/
def InTurn (s : Threads ι World Phase) (input : ι × Env) : Prop :=
  (s.loc input.1).InTurn conns tokens s input.1 input.2

instance Phase.InTurn.decidable [Fintype ι] (s : Threads ι World Phase) (i : ι) (env : Env) :
    (phase : Phase) → Decidable (phase.InTurn conns tokens s i env)
  | .createClient username force => inferInstanceAs (Decidable
      ((createClientWith env (!force) (conns i).fd username s.shared.reg).1 = .ok →
        (∃ row ∈ s.shared.db.sessions.rows, row.token = tokens i) ∧
          ∀ j, j ≠ i → tokens j = tokens i → (s.loc j).isDeleting = false))
  | .deleteSession _ => inferInstanceAs (Decidable (env.sql .deleteSession = .done))
  | .createSession _ => inferInstanceAs (Decidable
      (∀ j, (s.loc j).Redeeming → tokens j ∉ env.tokens))
  | .cleanup => isTrue trivial
  | .validate => isTrue trivial
  | .expire => isTrue trivial
  | .userExists _ => isTrue trivial
  | .dropUnknown => isTrue trivial
  | .findClient _ => isTrue trivial
  | .answered _ => isTrue trivial

instance [Fintype ι] (s : Threads ι World Phase) (input : ι × Env) :
    Decidable (InTurn conns tokens s input) :=
  Phase.InTurn.decidable conns tokens s input.1 input.2 (s.loc input.1)

variable {conns tokens} {phase : Phase} {row : Session} {s : Threads ι World Phase} {i j : ι}

/-- The handler has its client and has deleted the token. -/
def Phase.Spent (phase : Phase) : Prop := phase.Redeeming ∧ phase.isDeleting = false

theorem mem_grantSession {status user : Text}
    (h : row ∈ (grantSession env conn status user w).db.sessions.rows) :
    row ∈ w.db.sessions.rows ∨ row.token ∈ env.tokens := by
  unfold grantSession at h
  split at h
  · rename_i hcreate
    have hdb := congrArg Prod.snd hcreate
    simp only at hdb
    subst hdb
    exact (mem_insertSession h).imp_right And.left
  · rename_i hcreate
    have hdb := congrArg Prod.snd hcreate
    simp only at hdb
    subst hdb
    exact (mem_insertSession h).imp_right And.left

theorem mem_reconnectCall
    (h : row ∈ (reconnectCall conn token (w, phase) env).1.db.sessions.rows) :
    row ∈ w.db.sessions.rows ∨ ((∃ username, phase = .createSession username) ∧
      row.token ∈ env.tokens) := by
  cases phase with
  | cleanup =>
    simp only [reconnectCall] at h
    split_ifs at h
    · exact .inl h
    · exact .inl (mem_cleanupExpiredSessions h)
  | validate =>
    simp only [reconnectCall] at h
    split at h <;> exact .inl h
  | expire => exact .inl (mem_deleteSession h).1
  | userExists username =>
    simp only [reconnectCall] at h
    split_ifs at h <;> exact .inl h
  | dropUnknown => exact .inl (mem_deleteSession h).1
  | findClient username => exact .inl h
  | createClient username force =>
    simp only [reconnectCall] at h
    split at h <;> exact .inl h
  | deleteSession username => exact .inl (mem_deleteSession h).1
  | createSession username =>
    rcases mem_grantSession h with h | h
    · exact .inl h
    · exact .inr ⟨⟨username, rfl⟩, h⟩
  | answered answer => exact .inl h

theorem redeeming_reconnectCall (h : (reconnectCall conn token (w, phase) env).2.Redeeming) :
    phase.Redeeming ∨ ∃ username force, phase = .createClient username force ∧
      (createClientWith env (!force) conn.fd username w.reg).1 = .ok ∧
      (reconnectCall conn token (w, phase) env).2 = .deleteSession username := by
  cases phase with
  | cleanup =>
    simp only [reconnectCall] at h
    split_ifs at h
    · cases h
    · cases h
  | validate =>
    simp only [reconnectCall] at h
    split at h <;> cases h
  | expire => cases h
  | userExists username =>
    simp only [reconnectCall] at h
    split_ifs at h <;> cases h
  | dropUnknown => cases h
  | findClient username => cases h
  | createClient username force =>
    refine .inr ⟨username, force, rfl, ?_⟩
    simp only [reconnectCall] at h ⊢
    split
    · rename_i hcreate
      rw [hcreate]
      exact ⟨rfl, rfl⟩
    · rename_i hne hcreate
      rw [hcreate] at h
      split at h
      · rename_i heq
        cases heq
        exact absurd rfl hne
      · cases h
  | deleteSession username => exact .inl trivial
  | createSession username => exact .inl trivial
  | answered answer => exact .inl h

theorem spent_reconnectCall (h : (reconnectCall conn token (w, phase) env).2.Spent) :
    phase.Spent ∨ ∃ username, phase = .deleteSession username := by
  rcases redeeming_reconnectCall h.1 with hphase | ⟨username, force, rfl, -, hnext⟩
  · cases hdel : phase.isDeleting with
    | false => exact .inl ⟨hphase, hdel⟩
    | true =>
      cases phase with
      | deleteSession username => exact .inr ⟨username, rfl⟩
      | _ => cases hdel
  · rw [hnext] at h
    cases h.2

/-- At most one handler redeems a token, and a token whose handler has deleted it is not stored. -/
structure OneRedeemer (tokens : ι → Text) (s : Threads ι World Phase) : Prop where
  unique : ∀ i j, tokens i = tokens j → (s.loc i).Redeeming → (s.loc j).Redeeming → i = j
  spent : ∀ i, (s.loc i).Spent → ∀ row ∈ s.shared.db.sessions.rows, row.token ≠ tokens i

/-- A handler that gets to redeem its token in turn is the only one that does. -/
theorem not_redeeming_of_inTurn (h : OneRedeemer tokens s) (hc : InTurn conns tokens s (i, env))
    (hnew : (race conns tokens s (i, env)).loc i |>.Redeeming) (hold : ¬ (s.loc i).Redeeming)
    (hne : j ≠ i) (htok : tokens j = tokens i) : ¬ (s.loc j).Redeeming := by
  rw [Threads.step_loc_self] at hnew
  rcases redeeming_reconnectCall hnew with hphase | ⟨username, force, hphase, hok, -⟩
  · exact absurd hphase hold
  · simp only [InTurn, hphase, Phase.InTurn] at hc
    obtain ⟨⟨row, hrow, hrtok⟩, hothers⟩ := hc hok
    intro hj
    exact h.spent j ⟨hj, hothers j hne htok⟩ row hrow (hrtok.trans htok.symm)

theorem oneRedeemer_step (h : OneRedeemer tokens s) (hc : InTurn conns tokens s (i, env)) :
    OneRedeemer tokens (race conns tokens s (i, env)) := by
  constructor
  · -- the thread that moves against one that does not
    have hpair : ∀ j, j ≠ i → tokens j = tokens i → (s.loc j).Redeeming →
        ¬ ((race conns tokens s (i, env)).loc i).Redeeming := by
      intro j hne htok hj hi
      by_cases hold : (s.loc i).Redeeming
      · exact hne (h.unique j i htok hj hold)
      · exact not_redeeming_of_inTurn h hc hi hold hne htok hj
    intro j k htok hj hk
    rcases eq_or_ne j i with rfl | hji
    · rcases eq_or_ne k j with rfl | hkj
      · rfl
      · rw [Threads.step_loc_of_ne hkj] at hk
        exact absurd hj (hpair k hkj htok.symm hk)
    · rw [Threads.step_loc_of_ne hji] at hj
      rcases eq_or_ne k i with rfl | hki
      · exact absurd hk (hpair j hji htok hj)
      · rw [Threads.step_loc_of_ne hki] at hk
        exact h.unique j k htok hj hk
  · intro j hj row hrow
    rcases mem_reconnectCall hrow with hrow' | ⟨⟨username, hphase⟩, hnew⟩
    · rcases eq_or_ne j i with rfl | hne
      · rw [Threads.step_loc_self] at hj
        rcases spent_reconnectCall hj with hold | ⟨username, hphase⟩
        · exact h.spent j hold row hrow'
        · simp only [InTurn, hphase, Phase.InTurn] at hc
          simp only [Threads.step_shared, hphase, reconnectCall] at hrow
          exact (mem_deleteSession hrow).2 hc
      · rw [Threads.step_loc_of_ne hne] at hj
        exact h.spent j hj row hrow'
    · simp only [InTurn, hphase, Phase.InTurn] at hc
      have hj' : (s.loc j).Redeeming := by
        rcases eq_or_ne j i with rfl | hne
        · rw [hphase]
          trivial
        · rw [Threads.step_loc_of_ne hne] at hj
          exact hj.1
      exact fun he => hc j hj' (he ▸ hnew)

/-- The handler deletes its token, or is past the point where it may. -/
def Phase.Committed : Phase → Prop
  | .expire => True
  | .dropUnknown => True
  | .deleteSession _ => True
  | .createSession _ => True
  | .answered answer =>
    answer ∈ [.reconnected, .refused errSessionExpired, .refused errUnknownUser]
  | _ => False

theorem committed_reconnectCall (w : World) (phase : Phase) (env : Env) (h : phase.Committed) :
    (reconnectCall conn token (w, phase) env).2.Committed := by
  cases phase with
  | cleanup => cases h
  | validate => cases h
  | expire => simp [reconnectCall, Phase.Committed]
  | userExists username => cases h
  | dropUnknown => simp [reconnectCall, Phase.Committed]
  | findClient username => cases h
  | createClient username force => cases h
  | deleteSession username => trivial
  | createSession username => simp [reconnectCall, Phase.Committed]
  | answered answer => exact h

theorem redeemable_reconnectCall (h : ¬ phase.Committed) (hr : Redeemable w.db token env.now) :
    Redeemable (reconnectCall conn token (w, phase) env).1.db token env.now := by
  cases phase with
  | cleanup =>
    simp only [reconnectCall]
    split_ifs
    · exact hr
    · obtain ⟨row, hmem, htoken, hlive⟩ := hr
      simp only [dbCleanupExpiredSessions]
      split
      · exact ⟨row, List.mem_filter.mpr ⟨hmem, by simpa using hlive⟩, htoken, hlive⟩
      · exact ⟨row, hmem, htoken, hlive⟩
  | validate =>
    simp only [reconnectCall]
    split <;> exact hr
  | expire => exact absurd trivial h
  | userExists username =>
    simp only [reconnectCall]
    split_ifs <;> exact hr
  | dropUnknown => exact absurd trivial h
  | findClient username => exact hr
  | createClient username force =>
    simp only [reconnectCall]
    split <;> exact hr
  | deleteSession username => exact absurd trivial h
  | createSession username => exact absurd trivial h
  | answered answer => exact hr

/--
If tokens are redeemed in turn, at most one handler of a token answers that the
connection is logged in. In every interleaving, no call of a handler that is
refused for another reason than expiry or an unknown user takes a redeemable
token away.
-/
theorem redeemed_once (conns : ι → Conn) (tokens : ι → Text) (w : World)
    (inputs : List (ι × Env)) :
    let s := run (race conns tokens) (raceStart w) inputs
    (Along (race conns tokens) (InTurn conns tokens) (raceStart w) inputs →
      ∀ i j, tokens i = tokens j → s.loc i = .answered .reconnected →
        s.loc j = .answered .reconnected → i = j) ∧
    ∀ i errCode, s.loc i = .answered (.refused errCode) → errCode ≠ errSessionExpired →
      errCode ≠ errUnknownUser → ∀ pre env post, inputs = pre ++ (i, env) :: post →
        let t := run (race conns tokens) (raceStart w) pre
        Redeemable t.shared.db (tokens i) env.now →
          Redeemable (race conns tokens t (i, env)).shared.db (tokens i) env.now := by
  intro s
  constructor
  · intro h
    have hstart : OneRedeemer tokens (raceStart (ι := ι) w) :=
      ⟨fun i j _ hi => absurd hi id, fun i hi => absurd hi.1 id⟩
    have hone : OneRedeemer tokens s := by
      refine run_invariant_along (I := OneRedeemer tokens) ?_ hstart h
      exact fun s input hs hc => oneRedeemer_step hs hc
    intro i j htok hi hj
    exact hone.unique i j htok (by rw [hi]; rfl) (by rw [hj]; rfl)
  · rintro i errCode hi hexpired hunknown pre env post rfl t hr
    refine redeemable_reconnectCall (fun hcommitted => ?_) hr
    have hlast : (s.loc i).Committed := by
      have hsplit : s = run (race conns tokens) t ((i, env) :: post) := run_append ..
      rw [hsplit]
      refine Threads.loc_closed (D := Phase.Committed) ?_ hcommitted ((i, env) :: post)
      exact fun w phase env => committed_reconnectCall w phase env
    rw [hi] at hlast
    simp [Phase.Committed, hexpired, hunknown] at hlast

end Race

/-- Alice has a session and is gone; two connections are open. -/
def leftSession : World :=
  run step (World.init ⟨4, 4, 4, 10⟩ .empty 0)
    [(.calm 0 0 "t0".toList, .accept 4 false),
     (.calm 0 0 "t0".toList, .line 4 "REGISTER alice pw".toList),
     (.calm 0 0 "t0".toList, .disconnect 4),
     (.calm 0 0 "t0".toList, .accept 5 false),
     (.calm 0 0 "t0".toList, .accept 6 false)]

/-- The two connections. -/
def leftConns (second : Bool) : Conn := ⟨if second then 6 else 5, none, false⟩

/-- Both present the token. -/
def leftTokens (_ : Bool) : Text := "t0".toList

/-- The calls of one connection. -/
def callsOf (second : Bool) (n : ℕ) : List (Bool × Env) :=
  List.replicate n
    (second, .calm 0 (if second then 2 else 1) (if second then "t2" else "t1").toList)

/-- One handler after the other: the second finds the token gone. -/
theorem redeemed_once_serial :
    let s := run (race leftConns leftTokens) (raceStart leftSession)
      (callsOf false 7 ++ callsOf true 7)
    s.loc false = .answered .reconnected ∧ s.loc true ≠ .answered .reconnected := by
  have honce := (redeemed_once leftConns leftTokens leftSession
    (callsOf false 7 ++ callsOf true 7)).1 (by decide +kernel) false true rfl
  have hfirst : (run (race leftConns leftTokens) (raceStart leftSession)
      (callsOf false 7 ++ callsOf true 7)).loc false = .answered .reconnected := by decide +kernel
  exact ⟨hfirst, fun hsecond => absurd (honce hfirst hsecond) (by decide)⟩

/-- Both handlers validate the token before either deletes it, and both are answered OK. -/
theorem redeemed_twice :
    ¬ ∀ i j, leftTokens i = leftTokens j →
      (run (race leftConns leftTokens) (raceStart leftSession)
        (callsOf false 2 ++ callsOf true 2 ++ callsOf false 5 ++ callsOf true 5)).loc i =
          .answered .reconnected →
      (run (race leftConns leftTokens) (raceStart leftSession)
        (callsOf false 2 ++ callsOf true 2 ++ callsOf false 5 ++ callsOf true 5)).loc j =
          .answered .reconnected → i = j := by
  intro h
  exact absurd (h false true rfl (by decide +kernel) (by decide +kernel)) (by decide)

end ChatServer
