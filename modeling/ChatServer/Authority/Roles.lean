import ChatServer.Access.Tables
import ChatServer.Membership.Creation

/-! # Roles

The roles of a room are rows under its name, which CREATE_PRIVATE and DEMOTE
write and nothing ever deletes. They do not outlive the room exactly if every
room is created under a name without roles.
-/

namespace ChatServer

open Library World Roster

/-- The role the table holds for a user in a room of a name. -/
def Database.role (db : Database) (roomName user : Text) : RoomRole :=
  match db.roomRoles.find? (roomName, user) with
  | some row => row.role
  | none => .member

/-- The row of `room_roles` that a command writes. -/
def roleWritten (env : Env) (command : Cmd) (me : ClientPtr) (w : World) : Option RoleRow :=
  match command.type, command.arg1, (w.client me).currentRoom with
  | .createPrivate, some roomName, none =>
    if (createRoom env (some roomName) (some me) w.db w.reg).1 = .ok ∧ 0 < w.reg.maxMembers ∧
        env.sql .setRole = .done then
      some ⟨roomName, (w.client me).clientName, .owner⟩
    else none
  | .demote, some target, some room =>
    if permissionCheck env (w.room room).roomName (w.client me).clientName .demote w.db ∧
        target ≠ (w.client me).clientName ∧
        RoomRole.member.rank <
          (permissionGetRole env (w.room room).roomName target w.db).rank ∧
        env.sql .setRole = .done then
      some ⟨(w.room room).roomName, target,
        (permissionGetRole env (w.room room).roomName target w.db).lower⟩
    else none
  | _, _, _ => none

variable {env : Env} {w : World} {e : Event} {conn : Conn} {me c : ClientPtr} {command : Cmd}
  {r room : RoomPtr} {n u target : Text} {db db' : Database}

theorem role_of_mem {row : RoleRow} (hrow : row ∈ db.roomRoles.rows) :
    db.role row.roomName row.username = row.role := by
  have hfind : db.roomRoles.find? (row.roomName, row.username) = some row :=
    Table.find?_eq_some.mpr ⟨hrow, rfl⟩
  rw [Database.role, hfind]

theorem permissionGetRole_of_ne (h : permissionGetRole env n u db ≠ .member) :
    permissionGetRole env n u db = db.role n u := by
  unfold permissionGetRole at h ⊢
  split
  · rename_i row _ hrows
    have hmem := Sql.mem_of_mem_rows (hrows ▸ List.mem_cons_self)
    obtain ⟨hrow, hkey⟩ := List.mem_filter.mp hmem
    obtain ⟨rfl, rfl⟩ := of_decide_eq_true hkey
    exact (role_of_mem hrow).symm
  · rename_i hrows
    rw [hrows] at h
    exact absurd rfl h

theorem permissionGetRole_done (hsql : env.sql .getRole = .done) :
    permissionGetRole env n u db = db.role n u := by
  by_cases h : permissionGetRole env n u db = .member
  · rw [h]
    unfold Database.role
    split
    · rename_i row hfind
      obtain ⟨hrow, hkey⟩ := Table.find?_eq_some.mp hfind
      obtain ⟨rfl, rfl⟩ := Prod.mk.inj hkey
      unfold permissionGetRole at h
      rw [hsql, Sql.rows_done] at h
      split at h
      · rename_i row' _ hrows
        have hmem : row' ∈ db.roomRoles.rows.filter fun r =>
          r.roomName = row.roomName ∧ r.username = row.username := hrows ▸ List.mem_cons_self
        obtain ⟨hrow', hkey'⟩ := List.mem_filter.mp hmem
        have hsame : row'.key = row.key := Prod.ext_iff.mpr (of_decide_eq_true hkey')
        rw [← h, db.roomRoles.eq_of_key hrow' hrow hsame]
      · rename_i hrows
        have hmem : row ∈ ([] : List RoleRow) := hrows ▸ List.mem_filter.mpr ⟨hrow, by simp⟩
        cases hmem
    · rfl
  · exact permissionGetRole_of_ne h

theorem role_insertOrReplace {row : RoleRow}
    (h : db'.roomRoles = db.roomRoles.insertOrReplace row) :
    db'.role n u = if row.roomName = n ∧ row.username = u then row.role else db.role n u := by
  unfold Database.role
  rw [h, Table.find?_insertOrReplace]
  by_cases hkey : row.roomName = n ∧ row.username = u
  · rw [if_pos hkey, if_pos (Prod.ext_iff.mpr hkey)]
  · rw [if_neg hkey, if_neg fun hk => hkey (Prod.ext_iff.mp hk)]

theorem role_congr (h : db'.roomRoles = db.roomRoles) : db'.role n u = db.role n u := by
  rw [Database.role, h, Database.role]

theorem roomRoles_permissionSetRole {role : RoomRole} :
    (permissionSetRole env n u role db).roomRoles =
      if env.sql .setRole = .done then db.roomRoles.insertOrReplace ⟨n, u, role⟩
      else db.roomRoles := by
  unfold permissionSetRole
  split
  · rename_i h
    rw [if_pos h]
  · rename_i h
    rw [if_neg h]

theorem handleDemote_roomRoles (conn : Conn) (ht : command.type = .demote) :
    (handleDemote env command conn me w).db.roomRoles =
      match roleWritten env command me w with
      | some row => w.db.roomRoles.insertOrReplace row
      | none => w.db.roomRoles := by
  unfold handleDemote roleWritten
  rw [ht]
  cases hroom : (w.client me).currentRoom with
  | none => cases command.arg1 <;> rfl
  | some room =>
    by_cases hperm : permissionCheck env (w.room room).roomName (w.client me).clientName .demote
      w.db
    · cases command.arg1 with
      | none => simp [hperm]
      | some target =>
        by_cases hself : target = (w.client me).clientName
        · simp [hperm, hself]
        · rcases Nat.lt_or_ge RoomRole.member.rank
            (permissionGetRole env (w.room room).roomName target w.db).rank with hrank | hrank
          · simp only [hperm, hself, hrank, Nat.not_le.mpr hrank, Bool.not_true, replyOk_eq,
              reply_eq, emit_db, roomRoles_permissionSetRole, if_false, Bool.false_eq_true, ne_eq,
              not_false_eq_true, true_and]
            split_ifs <;> rfl
          · simp [hperm, hself, hrank, Nat.not_lt.mpr hrank]
    · cases command.arg1 <;> simp [hperm]

theorem handleCreatePrivate_roomRoles (conn : Conn) (ht : command.type = .createPrivate) :
    (handleCreatePrivate env command conn me w).db.roomRoles =
      match roleWritten env command me w with
      | some row => w.db.roomRoles.insertOrReplace row
      | none => w.db.roomRoles := by
  unfold handleCreatePrivate roleWritten
  rw [ht]
  cases command.arg1 with
  | none => rfl
  | some n =>
    rcases hcreate : createRoom env (some n) (some me) w.db w.reg with ⟨err, made, reg⟩
    by_cases herr : err = .ok
    · subst herr
      obtain ⟨r, rfl, -, -, -, rfl⟩ := createRoom_ok hcreate
      obtain ⟨hok, -⟩ := roomAddMember_newRoom env n me r w.db w.reg
      rcases hadd : roomAddMember (some r) (some me) _ with ⟨result, reg⟩
      rw [hadd] at hok
      cases hroom : (w.reg.clients me).currentRoom with
      | some room =>
        have hfail : result ≠ .ok := fun h => by simpa [hroom] using hok.mp h
        simp only [World.client, hcreate, hadd, hroom]
        cases result with
        | ok => exact absurd rfl hfail
        | _ => rfl
      | none =>
        by_cases hpos : 0 < w.reg.maxMembers
        · obtain rfl : result = .ok := hok.mpr ⟨hroom, hpos⟩
          have hrooms : ∀ u db, (dbCreateRoom env n u db).2.roomRoles = db.roomRoles :=
            fun u db => dbCreateRoom_writes .roomRoles (by simp)
          simp only [World.client, hcreate, hadd, hroom, hpos, true_and, replyOk_eq, reply_eq,
            emit_db]
          rw [hrooms, roomRoles_permissionSetRole]
          split_ifs <;> rfl
        · have hfail : result ≠ .ok := fun h => hpos (hok.mp h).2
          simp only [World.client, hcreate, hadd, hroom, hpos, false_and, and_false, if_false]
          cases result with
          | ok => exact absurd rfl hfail
          | _ => rfl
    · cases hroom : (w.reg.clients me).currentRoom with
      | some room => cases err <;> simp [World.client, hcreate, hroom] at herr ⊢
      | none => cases err <;> simp [World.client, hcreate, hroom] at herr ⊢

theorem roleWritten_cases {row : RoleRow} (h : roleWritten env command me w = some row) :
    (command.type = .createPrivate ∧ command.arg1 = some row.roomName ∧
        (createRoom env (some row.roomName) (some me) w.db w.reg).1 = .ok ∧
        row = ⟨row.roomName, (w.client me).clientName, .owner⟩) ∨
      (command.type = .demote ∧ w.db.role row.roomName row.username ≠ .member ∧
        row.role = (w.db.role row.roomName row.username).lower) := by
  unfold roleWritten at h
  split at h
  · rename_i ht h₁ _
    split_ifs at h with hmade
    obtain rfl := Option.some.inj h
    exact .inl ⟨ht, h₁, hmade.1, rfl⟩
  · rename_i target room ht h₁ hroom
    split_ifs at h with hdemote
    obtain rfl := Option.some.inj h
    have hne : permissionGetRole env (w.room room).roomName target w.db ≠ .member := by
      intro he
      have hrank := hdemote.2.2.1
      rw [he] at hrank
      exact Nat.lt_irrefl _ hrank
    have hrole := permissionGetRole_of_ne hne
    rw [hrole] at hne
    exact .inr ⟨ht, hne, congrArg RoomRole.lower hrole⟩
  · cases h

theorem step_roomRoles (env : Env) (h : Commands w e conn me command) :
    (step w (env, e)).db.roomRoles = match roleWritten env command me w with
      | some row => w.db.roomRoles.insertOrReplace row
      | none => w.db.roomRoles := by
  by_cases hwrites : TableName.roomRoles ∈ command.type.writes
  · have hvalid : command.type ≠ .invalid := fun ht => by simp [ht, CmdType.writes] at hwrites
    rw [step_eq_dispatch env h hvalid]
    cases ht : command.type <;> simp [ht, CmdType.writes] at hwrites
    · rw [dispatch, ht]
      exact handleDemote_roomRoles (w := { w with out := [], broadcasts := [] }) conn ht
    · rw [dispatch, ht]
      exact handleCreatePrivate_roomRoles (w := { w with out := [], broadcasts := [] }) conn ht
  · have hnone : roleWritten env command me w = none := by
      cases hrow : roleWritten env command me w with
      | none => rfl
      | some row =>
        rcases roleWritten_cases hrow with ⟨ht, -⟩ | ⟨ht, -⟩
        · exact absurd (by simp [ht, CmdType.writes]) hwrites
        · exact absurd (by simp [ht, CmdType.writes]) hwrites
    rw [hnone]
    refine step_kept (t := .roomRoles) (by simp [CmdType.writes]) fun conn' me' command' h' => ?_
    obtain ⟨-, -, rfl⟩ := h.unique h'
    exact hwrites

theorem role_of_written {row : RoleRow} (h : Commands w e conn me command)
    (hrow : roleWritten env command me w = some row) : (step w (env, e)).db.role n u =
      if row.roomName = n ∧ row.username = u then row.role else w.db.role n u := by
  have hroles := step_roomRoles env h
  rw [hrow] at hroles
  exact role_insertOrReplace hroles

theorem role_of_not_written (h : Commands w e conn me command)
    (hrow : roleWritten env command me w = none) :
    (step w (env, e)).db.role n u = w.db.role n u := by
  have hroles := step_roomRoles env h
  rw [hrow] at hroles
  exact role_congr hroles

/-- A role changes only when a command writes its row. -/
theorem role_step (env : Env) (w : World) (e : Event) (n u : Text) :
    (step w (env, e)).db.role n u = w.db.role n u ∨
      ∃ conn me command row, Commands w e conn me command ∧
        roleWritten env command me w = some row ∧ row.roomName = n ∧ row.username = u ∧
        (step w (env, e)).db.role n u = row.role := by
  by_cases hcmd : ∃ conn me command, Commands w e conn me command
  · obtain ⟨conn, me, command, hcmd⟩ := hcmd
    cases hrow : roleWritten env command me w with
    | none => exact .inl (role_of_not_written hcmd hrow)
    | some row =>
      have hrole := role_of_written (n := n) (u := u) hcmd hrow
      split_ifs at hrole with hkey
      · exact .inr ⟨conn, me, command, row, hcmd, hrow, hkey.1, hkey.2, hrole⟩
      · exact .inl hrole
  · refine .inl (role_congr (step_kept (t := .roomRoles) (by simp [CmdType.writes]) ?_))
    exact fun conn me command h => absurd ⟨conn, me, command, h⟩ hcmd

/-- CREATE_PRIVATE makes the room, and its sender, of the given name, the owner. -/
def Founds (env : Env) (w : World) (e : Event) (r : RoomPtr) (u : Text) : Prop :=
  ∃ me command n, Creates env w e me command n r ∧
    roleWritten env command me w = some ⟨n, u, .owner⟩

/-- The room was founded in the run by a user of the name, and is live since then. -/
def FoundedSince (s : World) (inputs : List (Env × Event)) (r : RoomPtr) (u : Text) : Prop :=
  ∃ pre input post, inputs = pre ++ input :: post ∧
    Founds input.1 (run step s pre) input.2 r u ∧
    ∀ later, later <+: post → r ∈ (run step s (pre ++ input :: later)).reg.roomList

/-- A room is created under a name where nobody has a role, except who is made the owner. -/
def NameUnused (w : World) (input : Env × Event) : Prop :=
  ∀ me command n r, Creates input.1 w input.2 me command n r → ∀ u, w.db.role n u ≠ .member →
    ∃ row, roleWritten input.1 command me w = some row ∧ row.username = u

theorem Creates.owner {row : RoleRow} (h : Creates env w e me command n r)
    (hrow : roleWritten env command me w = some row) :
    row = ⟨n, (w.client me).clientName, .owner⟩ := by
  obtain ⟨conn, reg, -, ht, h₁, -⟩ := h
  rcases roleWritten_cases hrow with ⟨-, harg, -, hmade⟩ | ⟨hdemote, -⟩
  · obtain rfl : row.roomName = n := Option.some.inj (harg.symm.trans h₁)
    exact hmade
  · rcases ht with ht | ht <;> rw [ht] at hdemote <;> cases hdemote

theorem demote_of_live {row : RoleRow} (hrow : roleWritten env command me w = some row)
    (hr : r ∈ w.reg.roomList) (hn : row.roomName = (w.room r).roomName) :
    command.type = .demote ∧ w.db.role row.roomName row.username ≠ .member ∧
      row.role = (w.db.role row.roomName row.username).lower := by
  rcases roleWritten_cases hrow with ⟨-, -, hmade, -⟩ | h
  · -- CREATE_PRIVATE writes under a name that no live room has
    rcases hresult : createRoom env (some row.roomName) (some me) w.db w.reg with ⟨err, o, reg⟩
    rw [hresult] at hmade
    obtain rfl : err = .ok := hmade
    obtain ⟨-, -, -, hnames, -⟩ := createRoom_ok hresult
    exact absurd hn.symm (hnames r hr)
  · exact h

/-- A role in a live room is held before an event that keeps the room, or the room is founded. -/
theorem role_origin (hfresh : NameUnused w (env, e)) (hr : r ∈ (step w (env, e)).reg.roomList)
    (hrole : (step w (env, e)).db.role ((step w (env, e)).room r).roomName u ≠ .member) :
    Founds env w e r u ∨ (r ∈ w.reg.roomList ∧ w.db.role (w.room r).roomName u ≠ .member) := by
  rcases mem_step_roomList hr with hr' | ⟨me, command, n, hcreate⟩
  · right
    refine ⟨hr', ?_⟩
    rw [step_roomName hr'] at hrole
    rcases role_step env w e (w.room r).roomName u with hsame | ⟨_, _, _, row, -, hrow, hn, hu, -⟩
    · rwa [hsame] at hrole
    · obtain ⟨-, hbefore, -⟩ := demote_of_live hrow hr' hn
      rwa [hn, hu] at hbefore
  · left
    rw [hcreate.roomName] at hrole
    obtain ⟨conn, hcmd⟩ := hcreate.commands
    have hwritten : ∃ row, roleWritten env command me w = some row ∧ row.username = u := by
      rcases role_step env w e n u with hsame | ⟨_, _, _, row, hcmd', hrow, -, hu, -⟩
      · exact hfresh me command n r hcreate u (hsame ▸ hrole)
      · obtain ⟨-, rfl, rfl⟩ := hcmd.unique hcmd'
        exact ⟨row, hrow, hu⟩
    obtain ⟨row, hrow, rfl⟩ := hwritten
    obtain rfl := hcreate.owner hrow
    exact ⟨me, command, n, hcreate, hrow⟩

theorem founds_of_foundedSince {s : World} (pre : List (Env × Event))
    (h : FoundedSince s (pre ++ [(env, e)]) r u) (hr : r ∉ (run step s pre).reg.roomList) :
    Founds env (run step s pre) e r u := by
  obtain ⟨pre', input, post, hsplit, hfounds, hlive⟩ := h
  rcases List.eq_nil_or_concat' post with rfl | ⟨post, last, rfl⟩
  · obtain ⟨rfl, hlast⟩ := List.append_inj' hsplit rfl
    obtain rfl := (List.cons.inj hlast).1
    exact hfounds
  · have hpre : pre = pre' ++ input :: post := by
      rw [← List.cons_append, ← List.append_assoc] at hsplit
      exact (List.append_inj' hsplit rfl).1
    rw [hpre] at hr
    exact absurd (hlive post (List.prefix_append _ _)) hr

/--
In every state a run reaches a role above member in a live room is that of the
founder of the room exactly if rooms are created under unused names only.
-/
theorem roles_founded_iff (cfg : Config) (db : Database) (start : ℤ)
    (inputs : List (Env × Event)) :
    (∀ pre, pre <+: inputs → ∀ r ∈ (run step (World.init cfg db start) pre).reg.roomList,
      ∀ env u, permissionGetRole env ((run step (World.init cfg db start) pre).room r).roomName u
        (run step (World.init cfg db start) pre).db ≠ .member →
      FoundedSince (World.init cfg db start) pre r u) ↔
      Along step NameUnused (World.init cfg db start) inputs := by
  rw [along_iff_forall]
  constructor
  · rintro h pre ⟨env, e⟩ hpre me command n r hcreate u hrole
    by_contra hrow
    have hafter : (step (run step (World.init cfg db start) pre) (env, e)).db.role n u ≠
        .member := by
      rcases role_step env (run step (World.init cfg db start) pre) e n u with
        hsame | ⟨_, _, _, row, hcmd', hrow', -, hu, -⟩
      · rwa [hsame]
      · obtain ⟨conn, hcmd⟩ := hcreate.commands
        obtain ⟨-, rfl, rfl⟩ := hcmd.unique hcmd'
        exact absurd ⟨row, hrow', hu⟩ hrow
    have hfounded : FoundedSince (World.init cfg db start) (pre ++ [(env, e)]) r u := by
      refine h _ hpre r ?_ (.calm 0 0 []) u ?_
      · rw [run_concat]
        exact hcreate.mem_roomList
      · rw [permissionGetRole_done rfl, run_concat, hcreate.roomName]
        exact hafter
    obtain ⟨me', command', n', hcreate', hwritten⟩ :=
      founds_of_foundedSince pre hfounded hcreate.new.1
    obtain ⟨conn, hcmd⟩ := hcreate.commands
    obtain ⟨conn', hcmd'⟩ := hcreate'.commands
    obtain ⟨-, rfl, rfl⟩ := hcmd.unique hcmd'
    exact hrow ⟨_, hwritten, rfl⟩
  · rintro h pre hpre r hr env u hrole
    rw [permissionGetRole_of_ne hrole] at hrole
    obtain ⟨pre', input, post, hsplit, hfounds, hlater⟩ := run_origin_kept step
      (Q := fun w => r ∈ w.reg.roomList ∧ w.db.role (w.room r).roomName u ≠ .member)
      (M := fun w input => Founds input.1 w input.2 r u)
      (fun h => by cases h.1)
      (fun pre' input hpre' hq => role_origin (h pre' input (hpre'.trans hpre)) hq.1 hq.2)
      ⟨hr, hrole⟩
    exact ⟨pre', input, post, hsplit, hfounds, fun later hpost => (hlater later hpost).1⟩

/-- An owner leaves its room, which is deleted, and another user creates a room of that name. -/
def reusedNameRun : List (Env × Event) :=
  [(.calm 0 0 "t0".toList, .accept 4 false),
   (.calm 0 0 "t0".toList, .accept 5 false),
   (.calm 0 0 "t0".toList, .line 4 "REGISTER alice pw".toList),
   (.calm 0 1 "t1".toList, .line 5 "REGISTER bob pw".toList),
   (.calm 0 0 "t0".toList, .line 4 "CREATE_PRIVATE lounge".toList),
   (.calm 0 0 "t0".toList, .line 4 "LEAVE".toList),
   (.calm 0 0 "t0".toList, .line 5 "CREATE lounge".toList)]

theorem reusedNameRun_not_founded :
    ¬ ∀ r ∈ (run step (World.init ⟨4, 4, 4, 10⟩ .empty 0) reusedNameRun).reg.roomList, ∀ env u,
      permissionGetRole env
        ((run step (World.init ⟨4, 4, 4, 10⟩ .empty 0) reusedNameRun).room r).roomName u
        (run step (World.init ⟨4, 4, 4, 10⟩ .empty 0) reusedNameRun).db ≠ .member →
      FoundedSince (World.init ⟨4, 4, 4, 10⟩ .empty 0) reusedNameRun r u := by
  intro h
  have hfounded := h 0 (by decide +kernel) (.calm 0 0 []) "alice".toList (by decide +kernel)
  obtain ⟨me, command, n, hcreate, hrow⟩ :=
    founds_of_foundedSince (reusedNameRun.take 6) hfounded (by decide +kernel)
  obtain ⟨conn, text, he, -, -, rfl⟩ := hcreate.commands
  obtain ⟨-, rfl⟩ := Event.line.inj he
  rcases roleWritten_cases hrow with ⟨ht, -⟩ | ⟨ht, -⟩
  · exact absurd ht (by decide)
  · exact absurd ht (by decide)

end ChatServer
