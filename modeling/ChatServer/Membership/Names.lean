import ChatServer.Membership.Entry

/-! # Where the names of clients come from

A client gets its name once, when a REGISTER, LOGIN or RECONNECT creates it.
The name is the argument of the line or the user of a session, and it fits the
field for it.
-/

namespace ChatServer

open Library World Roster

/-- A name that a login line may establish. -/
inductive NamedBy (w : World) (text : Text) : Text → Prop
  | argument {n : Text} (h₁ : (parseLine text).arg1 = some n) : NamedBy w text n
  | session {s : Session} (h : s ∈ w.db.sessions.rows) :
      NamedBy w text (strncpy maxUsernameLen s.username)

variable {env : Env} {w w' : World} {e : Event} {conn : Conn} {me c : ClientPtr} {command : Cmd}
  {reg reg' : Registry} {n text : Text} {fd : Fd}

theorem NamedBy.of_out {outs : List Output} {broadcasts : List Text}
    (h : NamedBy { w with out := outs, broadcasts } text n) :
    NamedBy w text n := by
  cases h with
  | argument h₁ => exact .argument h₁
  | session hs => exact .session hs

theorem createClientWith_name {check : Bool} {err : ClientErr} {o : Option ClientPtr}
    (h : createClientWith env check fd n reg = (err, o, reg')) (c : ClientPtr) :
    (reg'.clients c).clientName = (reg.clients c).clientName ∨
      (n.length < maxUsernameLen ∧ (reg'.clients c).clientName = n) := by
  by_cases herr : err = .ok
  · subst herr
    obtain ⟨c', -, -, hn, rfl⟩ := createClientWith_ok h
    rcases eq_or_ne c c' with rfl | hne
    · refine .inr ⟨?_, by simp [newClient, strncpy_of_not_badLength hn]⟩
      simp only [badLength, decide_eq_false_iff_not, not_or, not_le] at hn
      exact hn.2
    · exact .inl (by simp [hne])
  · rw [(createClientWith_err herr h).2]
    exact .inl rfl

theorem replaceClient_name {err : ClientErr} {o : Option ClientPtr}
    (h : replaceClient env fd n reg = (err, o, reg')) (c : ClientPtr) :
    (reg'.clients c).clientName = (reg.clients c).clientName ∨
      (n.length < maxUsernameLen ∧ (reg'.clients c).clientName = n) := by
  rw [replaceClient_eq] at h
  exact createClientWith_name h c

theorem grantSession_clients {status user : Text} :
    (grantSession env conn status user w).reg.clients = w.reg.clients := by
  unfold grantSession
  split <;> rfl

/-- The name of a client is the old one, or one that a condition allows and that fits. -/
def Renamed (A : Text → Prop) (w w' : World) (c : ClientPtr) : Prop :=
  (w'.client c).clientName = (w.client c).clientName ∨
    (A (w'.client c).clientName ∧ (w'.client c).clientName.length < maxUsernameLen)

theorem Renamed.of_created {A : Text → Prop} (hA : A n) (hclients : w'.reg.clients = reg'.clients)
    (h : (reg'.clients c).clientName = (w.reg.clients c).clientName ∨
      (n.length < maxUsernameLen ∧ (reg'.clients c).clientName = n)) : Renamed A w w' c := by
  unfold Renamed World.client
  rw [hclients]
  rcases h with h | ⟨hlen, h⟩
  · exact .inl h
  · exact .inr ⟨h ▸ hA, h ▸ hlen⟩

theorem handleRegister_renamed : Renamed (fun n => command.arg1 = some n) w
    (handleRegister env command conn w) c := by
  unfold handleRegister
  split_ifs
  · exact .inl rfl
  · split
    · rename_i username _ h₁ _
      split
      · exact .inl rfl
      · exact .inl rfl
      · split_ifs
        · exact .inl rfl
        · split
          · rename_i hcreate
            exact .of_created h₁ grantSession_clients (createClientWith_name hcreate c)
          · rename_i hcreate
            exact .of_created h₁ rfl (createClientWith_name hcreate c)
    · exact .inl rfl

theorem handleLogin_renamed : Renamed (fun n => command.arg1 = some n) w
    (handleLogin env command conn w) c := by
  unfold handleLogin
  split_ifs
  · exact .inl rfl
  · split
    · rename_i username _ h₁ _
      split
      · exact .inl rfl
      · exact .inl rfl
      · exact .inl rfl
      · split
        · rename_i hcreate
          exact .of_created h₁ grantSession_clients (replaceClient_name hcreate c)
        · rename_i hcreate
          exact .of_created h₁ rfl (replaceClient_name hcreate c)
    · exact .inl rfl

theorem session_of_validated {token : Text} {db db' : Database}
    (h : dbValidateSession env token db = (.ok n, db')) :
    ∃ s ∈ db.sessions.rows, n = strncpy maxUsernameLen s.username := by
  unfold dbValidateSession at h
  split_ifs at h
  · cases h
  · cases h
  · split at h
    · cases h
    · rename_i s _ hrows
      split_ifs at h
      · cases h
      · cases h
        have hs : s ∈ (env.sql .validateSession).rows
            (db.sessions.rows.filter fun s => s.token = token) := by
          rw [hrows]
          exact List.mem_cons_self
        exact ⟨s, (List.mem_filter.mp (Sql.mem_of_mem_rows hs)).1, rfl⟩

theorem mem_cleanupExpiredSessions {db : Database} {row : Session}
    (h : row ∈ (dbCleanupExpiredSessions env db).2.sessions.rows) : row ∈ db.sessions.rows := by
  unfold dbCleanupExpiredSessions at h
  split at h
  · exact (List.mem_filter.mp h).1
  · exact h

theorem handleReconnect_renamed :
    Renamed (fun n => ∃ s ∈ w.db.sessions.rows, n = strncpy maxUsernameLen s.username) w
      (handleReconnect env command conn w) c := by
  unfold handleReconnect
  split_ifs
  · exact .inl rfl
  · split
    · exact .inl rfl
    · split
      · exact .inl rfl
      · exact .inl rfl
      · exact .inl rfl
      · rename_i username db hvalid
        have hsession : ∃ s ∈ w.db.sessions.rows, username = strncpy maxUsernameLen s.username := by
          obtain ⟨s, hs, hname⟩ := session_of_validated hvalid
          exact ⟨s, mem_cleanupExpiredSessions hs, hname⟩
        split_ifs
        · exact .inl rfl
        · split
          · rename_i hcreate
            exact .of_created hsession grantSession_clients (replaceClient_name hcreate c)
          · rename_i hcreate
            exact .of_created hsession rfl (replaceClient_name hcreate c)

theorem dispatchAnonymous_renamed :
    Renamed (NamedBy w text) w (dispatchAnonymous env (parseLine text) conn w) c := by
  have harg {w' : World} (h : Renamed (fun n => (parseLine text).arg1 = some n) w w' c) :
      Renamed (NamedBy w text) w w' c := h.imp_right fun h => ⟨.argument h.1, h.2⟩
  unfold dispatchAnonymous
  split
  · exact harg handleRegister_renamed
  · exact harg handleLogin_renamed
  · refine handleReconnect_renamed.imp_right fun h => ⟨?_, h.2⟩
    obtain ⟨⟨s, hs, hname⟩, -⟩ := h
    rw [hname]
    exact .session hs
  · exact .inl rfl

/-- An event keeps the names of all clients, or it is a line that gives one its name. -/
theorem step_renamed (w : World) (env : Env) (e : Event) (c : ClientPtr) :
    Renamed (fun n => ∃ fd text, e = .line fd text ∧ NamedBy w text n) w (step w (env, e)) c := by
  by_cases hlogin : ∃ fd c n, Does env w e (.login fd c n)
  · obtain ⟨fd, c', n, hdoes⟩ := hlogin
    rcases hdoes with _ | ⟨hconn, hp⟩
    rename_i text conn
    have hme : conn.me = none := by cases hp <;> assumption
    simp only [step, handleEvent, hconn, processLine, hme]
    split_ifs
    · exact .inl rfl
    · exact .inl rfl
    · have hline : Renamed (NamedBy { w with out := [], broadcasts := [] } text)
          { w with out := [], broadcasts := [] }
          (dispatchAnonymous env (parseLine text) conn { w with out := [], broadcasts := [] }) c :=
        dispatchAnonymous_renamed
      exact hline.imp_right fun h => ⟨⟨_, text, rfl, h.1.of_out⟩, h.2⟩
  · have hname := (step_leads w env e).name_eq fun fd c n h => hlogin ⟨fd, c, n, h⟩
    exact .inl (congrFun hname c)

theorem run_clientName_length (cfg : Config) (db : Database) (start : ℤ)
    (inputs : List (Env × Event)) (c : ClientPtr) :
    ((run step (World.init cfg db start) inputs).client c).clientName.length < maxUsernameLen := by
  refine run_invariant
    (I := fun w : World => (w.client c).clientName.length < maxUsernameLen) ?_ ?_ inputs
  · rintro w ⟨env, e⟩ hw
    rcases step_renamed w env e c with h | ⟨-, h⟩
    · rw [h]
      exact hw
    · exact h
  · exact (by decide : ([] : Text).length < maxUsernameLen)

end ChatServer
