import ChatServer.Membership.Entry
import ChatServer.Replies.Outcome

/-! # Registration

REGISTER inserts the row of the user first and creates the client afterwards,
with checks of its own. When these fail, the row stays.
-/

namespace ChatServer

open Library World

variable {env : Env} {w : World} {conn : Conn} {command : Cmd} {n pw : Text} {reg : Registry}

/-- The user name is free and the INSERT runs. -/
def Insertable (env : Env) (n : Text) (db : Database) : Prop :=
  env.sql .registerUser = .done ∧ ∀ u ∈ db.users.rows, u.username ≠ n

/-- `create_client` finds a good name that no client has, a free slot and memory. -/
structure Admissible (env : Env) (n : Text) (reg : Registry) : Prop where
  name : badLength maxUsernameLen n = false
  slot : reg.clientList.length < reg.clientCapacity
  fresh : (findClient (some n) reg).2 = none
  memory : ∃ c, env.clientMem = some c ∧ c ∉ reg.clientList

/-- The accounts and the logins are as before. -/
structure AccountsKept (conn : Conn) (w w' : World) : Prop where
  users : w'.db.users = w.db.users
  sessions : w'.db.sessions = w.db.sessions
  reg : w'.reg = w.reg
  me : (w'.conns.get conn.fd).map Conn.me = (w.conns.get conn.fd).map Conn.me

/-- The name has a new account, and the connection is logged in under it. -/
structure Enrolled (env : Env) (conn : Conn) (n pw : Text) (w w' : World) : Prop where
  users : w'.db.users.rows = w.db.users.rows ++ [⟨n, env.sha256Hex pw⟩]
  me : ∃ c, w'.conns.get conn.fd = some { conn with me := some c } ∧ c ∈ w'.reg.clientList ∧
    (w'.client c).clientName = n ∧ (w'.client c).socketFd = conn.fd

theorem dbRegisterUser_cases (env : Env) (n pw : Text) (db : Database) :
    (Insertable env n db ∧ ∃ users, users.rows = db.users.rows ++ [⟨n, env.sha256Hex pw⟩] ∧
      dbRegisterUser env n pw db = (.inserted, { db with users })) ∨
    (¬ Insertable env n db ∧ ∃ res, res ≠ .inserted ∧ dbRegisterUser env n pw db = (res, db)) := by
  unfold dbRegisterUser Insertable
  split
  · rename_i hsql
    unfold Table.insert?
    split_ifs with hkey
    · refine .inr ⟨fun h => ?_, .taken, by simp, rfl⟩
      obtain ⟨u, hu, hname⟩ := List.mem_map.mp hkey
      exact h.2 u hu hname
    · exact .inl ⟨⟨hsql, fun u hu hname => hkey (List.mem_map.mpr ⟨u, hu, hname⟩)⟩, _, rfl, rfl⟩
  · rename_i hsql
    exact .inr ⟨fun h => hsql h.1, .error, by simp, rfl⟩

theorem createClient_cases (env : Env) (fd : Fd) (n : Text) (reg : Registry) :
    (Admissible env n reg ∧ ∃ c, createClient env fd n reg = (.ok, some c,
      { reg.setClient c (newClient env fd n) with clientList := reg.clientList ++ [c] })) ∨
    (¬ Admissible env n reg ∧ ∃ err, err ≠ .ok ∧ createClient env fd n reg = (err, none, reg)) := by
  unfold createClient createClientWith
  split_ifs with hname hslot hfresh
  · exact .inr ⟨fun h => by simp [h.name] at hname, _, by simp, rfl⟩
  · exact .inr ⟨fun h => absurd h.slot (not_lt.mpr hslot), _, by simp, rfl⟩
  · exact .inr ⟨fun h => by simp [h.fresh] at hfresh, _, by simp, rfl⟩
  · split
    · rename_i hmem
      exact .inr ⟨fun h => by simpa [hmem] using h.memory, _, by simp, rfl⟩
    · rename_i c hmem
      split_ifs with hin
      · refine .inr ⟨fun h => ?_, _, by simp, rfl⟩
        obtain ⟨c', hc', hout⟩ := h.memory
        rw [hmem] at hc'
        exact hout (Option.some.inj hc' ▸ hin)
      · refine .inl ⟨⟨by simpa using hname, not_le.mp hslot, ?_, c, hmem, hin⟩, c, rfl⟩
        simpa using hfresh

theorem handleRegister_cases (env : Env) (w : World) (hme : conn.me = none)
    (h₁ : command.arg1 = some n) (h₂ : command.arg2 = some pw) :
    (¬ Insertable env n w.db ∧ ∃ errCode, handleRegister env command conn w =
      w.replyErr conn errCode) ∨
    ∃ users, users.rows = w.db.users.rows ++ [⟨n, env.sha256Hex pw⟩] ∧ Insertable env n w.db ∧
      ((¬ Admissible env n w.reg ∧ ∃ (errCode : Text) (w' : World),
          w'.db = { w.db with users } ∧ w'.out = w.out ∧
          handleRegister env command conn w = w'.replyErr conn errCode) ∨
        Admissible env n w.reg ∧ ∃ c, handleRegister env command conn w =
          grantSession env conn okRegistered n (setMe conn (some c) { w with
            db := { w.db with users }
            reg := { w.reg.setClient c (newClient env conn.fd n) with
              clientList := w.reg.clientList ++ [c] } })) := by
  rcases dbRegisterUser_cases env n pw w.db with ⟨hin, users, hrows, hdb⟩ | ⟨hin, res, hres, hdb⟩
  · refine .inr ⟨users, hrows, hin, ?_⟩
    rcases createClient_cases env conn.fd n w.reg with ⟨hadm, c, hc⟩ | ⟨hadm, err, herr, hc⟩
    · refine .inr ⟨hadm, c, ?_⟩
      simp [handleRegister, hme, h₁, h₂, hdb, hc, hadm.fresh]
    · refine .inl ⟨hadm, ?_⟩
      by_cases hfresh : (findClient (some n) w.reg).2.isSome
      · exact ⟨errUsernameTaken, { w with db := { w.db with users } }, rfl, rfl,
          by simp [handleRegister, hme, h₁, h₂, hdb, hfresh]⟩
      · refine ⟨registerErr err, setMe conn none { w with db := { w.db with users } }, rfl, rfl, ?_⟩
        simp [handleRegister, hme, h₁, h₂, hdb, hc, hfresh, setMe]
  · refine .inl ⟨hin, ?_⟩
    cases res with
    | inserted => exact absurd rfl hres
    | taken => exact ⟨errUsernameTaken, by simp [handleRegister, hme, h₁, h₂, hdb]⟩
    | error => exact ⟨errServerError, by simp [handleRegister, hme, h₁, h₂, hdb]⟩

theorem insertSession_db (env : Env) (n : Text) (tokens : List Text) (db : Database) :
    ∃ sessions, (insertSession env n tokens db).2 = { db with sessions } := by
  induction tokens generalizing db with
  | nil => exact ⟨db.sessions, rfl⟩
  | cons token tokens ih =>
    unfold insertSession
    split
    · split
      · exact ⟨_, rfl⟩
      · exact ih db
    · exact ⟨db.sessions, rfl⟩

theorem grantSession_eq (env : Env) (conn : Conn) (status n : Text) (w : World) : ∃ sessions token,
    grantSession env conn status n w = { w with db := { w.db with sessions } }.reply conn
      (formatOkSession maxLineLen status token) := by
  obtain ⟨sessions, hdb⟩ := insertSession_db env n env.tokens w.db
  unfold grantSession dbCreateSession
  rcases hgrant : insertSession env n env.tokens w.db with ⟨token, db⟩
  rw [hgrant] at hdb
  obtain rfl : db = _ := hdb
  cases token with
  | none => exact ⟨sessions, [], rfl⟩
  | some token => exact ⟨sessions, token, rfl⟩

/--
REGISTER changes nothing when it is answered with an error, and creates the
account and the login when it is answered with OK. No name is stored that no
client could have.
-/
structure RegisterAtomic (env : Env) (w : World) (conn : Conn) (text : Text) (w' : World) :
    Prop where
  err : AnsweredErr conn w'.out → AccountsKept conn w w'
  ok : AnsweredOk conn okRegistered w'.out → ∃ n pw, (parseLine text).arg1 = some n ∧
    (parseLine text).arg2 = some pw ∧ Enrolled env conn n pw w w'
  stored : ∀ u ∈ w'.db.users.rows,
    u ∈ w.db.users.rows ∨ badLength maxUsernameLen u.username = false

theorem registerAtomic_replyErr {text errCode : Text} :
    RegisterAtomic env w conn text ({ w with out := [], broadcasts := [] }.replyErr conn errCode)
      where
  err := fun _ => ⟨rfl, rfl, rfl, rfl⟩
  ok := fun hok => absurd hok (answeredErr_replyErr rfl).not_ok
  stored := fun _ hu => .inl hu

theorem step_eq_handleRegister {text : Text} (hconn : w.conns.get conn.fd = some conn)
    (ht : (parseLine text).type = .register) : step w (env, .line conn.fd text) =
      handleRegister env (parseLine text) conn { w with out := [], broadcasts := [] } := by
  cases hme : conn.me with
  | none => simp [step, handleEvent, hconn, processLine, hme, ht, dispatchAnonymous]
  | some me => simp [step, handleEvent, hconn, processLine, hme, ht, dispatch]

theorem registerAtomic_enrolled {text : Text} {users : Table User.username} {c : ClientPtr}
    (h₁ : (parseLine text).arg1 = some n) (h₂ : (parseLine text).arg2 = some pw)
    (hrows : users.rows = w.db.users.rows ++ [⟨n, env.sha256Hex pw⟩])
    (hname : badLength maxUsernameLen n = false) :
    RegisterAtomic env w conn text (grantSession env conn okRegistered n
      (setMe conn (some c) { w with
        out := []
        broadcasts := []
        db := { w.db with users }
        reg := { w.reg.setClient c (newClient env conn.fd n) with
          clientList := w.reg.clientList ++ [c] } })) := by
  obtain ⟨sessions, token, hgrant⟩ := grantSession_eq env conn okRegistered n
    (setMe conn (some c) { w with
      out := []
      broadcasts := []
      db := { w.db with users }
      reg := { w.reg.setClient c (newClient env conn.fd n) with
        clientList := w.reg.clientList ++ [c] } })
  rw [hgrant]
  refine ⟨fun herr => absurd (answeredOk_reply rfl) herr.not_ok, fun _ => ?_, fun u hu => ?_⟩
  · refine ⟨n, pw, h₁, h₂, hrows, c, ?_, List.mem_append_right _ (List.mem_singleton_self c),
      ?_, ?_⟩
    · simp [setMe, Conns.set]
    · simp [setMe, client, newClient, strncpy_of_not_badLength hname]
    · simp [setMe, client, newClient]
  · have hu' : u ∈ users.rows := hu
    rw [hrows] at hu'
    rcases List.mem_append.mp hu' with hold | hnew
    · exact .inl hold
    · obtain rfl := List.mem_singleton.mp hnew
      exact .inr hname

/--
REGISTER is all or nothing exactly if, whenever its name is free and the INSERT
runs, the client can be created too.
-/
theorem register_atomic_iff {text : Text} (hconn : w.conns.get conn.fd = some conn)
    (ht : (parseLine text).type = .register) :
    RegisterAtomic env w conn text (step w (env, .line conn.fd text)) ↔
      (conn.me = none → ∀ n pw, (parseLine text).arg1 = some n → (parseLine text).arg2 = some pw →
        Insertable env n w.db → Admissible env n w.reg) := by
  rw [step_eq_handleRegister hconn ht]
  by_cases hme : conn.me = none
  · cases h₁ : (parseLine text).arg1 with
    | none =>
      refine iff_of_true ?_ (by simp)
      rw [handleRegister, if_neg (by simp [hme]), h₁]
      exact registerAtomic_replyErr
    | some n =>
      cases h₂ : (parseLine text).arg2 with
      | none =>
        refine iff_of_true ?_ (by simp)
        rw [handleRegister, if_neg (by simp [hme]), h₁, h₂]
        exact registerAtomic_replyErr
      | some pw =>
        have hiff : (conn.me = none → ∀ n' pw', some n = some n' → some pw = some pw' →
            Insertable env n' w.db → Admissible env n' w.reg) ↔
              (Insertable env n w.db → Admissible env n w.reg) :=
          ⟨fun h => h hme n pw rfl rfl, by rintro h - _ _ ⟨⟩ ⟨⟩; exact h⟩
        rw [hiff]
        rcases handleRegister_cases env { w with out := [], broadcasts := [] } hme h₁ h₂ with
          ⟨hin, errCode, heq⟩ | ⟨users, hrows, hin, ⟨hadm, errCode, w', hdb, hout, heq⟩ |
            ⟨hadm, c, heq⟩⟩
        · rw [heq]
          exact iff_of_true registerAtomic_replyErr fun h => absurd h hin
        · rw [heq]
          refine iff_of_false (fun h => ?_) fun h => hadm (h hin)
          have hkept : w'.db.users = w.db.users := (h.err (answeredErr_replyErr hout)).users
          have husers : users.rows = w.db.users.rows := by rw [← hkept, hdb]
          have hlen := congrArg List.length (husers.symm.trans hrows)
          simp at hlen
        · rw [heq]
          exact iff_of_true (registerAtomic_enrolled h₁ h₂ hrows hadm.name) fun _ => hadm
  · refine iff_of_true ?_ fun h => absurd h hme
    rw [handleRegister, if_pos hme]
    exact registerAtomic_replyErr

/-- A server with one connection. -/
def connected : World :=
  run step (World.init ⟨4, 4, 4, 10⟩ .empty 0) [(.calm 0 0 [], .accept 4 false)]

theorem register_atomic_alice :
    RegisterAtomic (.calm 0 0 "t0".toList) connected ⟨4, none, false⟩ "REGISTER alice pw".toList
      (step connected (.calm 0 0 "t0".toList, .line 4 "REGISTER alice pw".toList)) := by
  refine (register_atomic_iff rfl (by decide)).mpr fun _ n pw h₁ _ _ => ?_
  obtain rfl : n = "alice".toList := by
    rw [← Option.some.inj h₁]
    decide
  exact ⟨by decide, by decide, by decide, 0, rfl, by decide⟩

/-- A name of 32 bytes is refused, and stored. -/
def registerLong : Text := "REGISTER aaaaaaaabbbbbbbbccccccccdddddddd pw".toList

theorem registerLong_not_atomic :
    ¬ RegisterAtomic (.calm 0 0 "t0".toList) connected ⟨4, none, false⟩ registerLong
      (step connected (.calm 0 0 "t0".toList, .line 4 registerLong)) := by
  intro h
  have hkept := (h.err ⟨errInvalidUsername, by decide +kernel⟩).users
  have hlen := congrArg (fun t => t.rows.length) hkept
  revert hlen
  decide +kernel

end ChatServer
