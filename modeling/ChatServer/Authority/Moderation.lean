import ChatServer.Access.Bans
import ChatServer.Authority.Roles

/-! # Who changes the moderation tables

A row of mutes, bans, invites or roles under the name of a live room changes
only by a line of a user with the role its command needs, apart from what users
do to their own rows. UNMUTE alone asks for no role.
-/

namespace ChatServer

open Library World

/-- A live room has this name. -/
def LiveName (w : World) (n : Text) : Prop := ∃ r ∈ w.reg.roomList, (w.room r).roomName = n

/-- The event is a line of a user who holds at least this role under a room name. -/
def SentWithRole (w : World) (e : Event) (n : Text) (role : RoomRole) : Prop :=
  ∃ conn me command, Commands w e conn me command ∧
    role.rank ≤ (w.db.role n (w.client me).clientName).rank

/-- The event is a CREATE_PRIVATE whose sender makes itself the owner of the new room. -/
def OwnsNewRoom (env : Env) (w : World) (e : Event) (row : RoleRow) : Prop :=
  ∃ me command r, Creates env w e me command row.roomName r ∧ command.type = .createPrivate ∧
    row.username = (w.client me).clientName ∧
    (step w (env, e)).db.role row.roomName row.username = .owner

/-- The event is an ACCEPT or DECLINE whose sender consumes its own invitation. -/
def ConsumesOwn (env : Env) (w : World) (e : Event) (i : Invite) : Prop :=
  ∃ conn me command, Commands w e conn me command ∧
    (command.type = .accept ∨ command.type = .decline) ∧ command.arg1 = some i.roomName ∧
    i.invitee = (w.client me).clientName ∧ i ∉ (step w (env, e)).db.invites.rows

/-- Every row that an event changes under a room name is changed by a user entitled to it. -/
structure ModeratedBy (env : Env) (w : World) (e : Event) (n : Text) : Prop where
  mutes : ∀ s, w.db.mutes.Changed (step w (env, e)).db.mutes s → s.roomName = n →
    SentWithRole w e n .admin
  bans : ∀ s, w.db.bans.Changed (step w (env, e)).db.bans s → s.roomName = n →
    SentWithRole w e n .owner
  invites : ∀ i, w.db.invites.Changed (step w (env, e)).db.invites i → i.roomName = n →
    SentWithRole w e n .admin ∨ ConsumesOwn env w e i
  roles : ∀ row, w.db.roomRoles.Changed (step w (env, e)).db.roomRoles row → row.roomName = n →
    SentWithRole w e n .owner ∨ OwnsNewRoom env w e row

/-- An UNMUTE that lifts a mute in a live room, by a user without the role that MUTE needs. -/
def UnmutesWithoutRole (env : Env) (w : World) (e : Event) : Prop :=
  ∃ conn me command room target, Commands w e conn me command ∧ command.type = .unmute ∧
    command.arg1 = some target ∧ (w.client me).currentRoom = some room ∧
    LiveName w (w.room room).roomName ∧ env.sql .muteRemove = .done ∧
    (∃ s ∈ w.db.mutes.rows, s.roomName = (w.room room).roomName ∧ s.user = target) ∧
    (w.db.role (w.room room).roomName (w.client me).clientName).rank < RoomRole.admin.rank

variable {env : Env} {w : World} {e : Event} {conn : Conn} {me : ClientPtr} {command : Cmd}
  {n u : Text}

theorem role_of_permissionCheck {db : Database} :
    (permissionCheck env n u .mute db → RoomRole.admin.rank ≤ (db.role n u).rank) ∧
      (permissionCheck env n u .invite db → RoomRole.admin.rank ≤ (db.role n u).rank) ∧
      (permissionCheck env n u .ban db → RoomRole.owner.rank ≤ (db.role n u).rank) ∧
      (permissionCheck env n u .demote db → RoomRole.owner.rank ≤ (db.role n u).rank) := by
  by_cases hmember : permissionGetRole env n u db = .member
  · simp [permissionCheck, hmember, RoomRole.rank]
  · simp [permissionCheck, permissionGetRole_of_ne hmember]

theorem handleMute_mutes (env : Env) (command : Cmd) (conn : Conn) (me : ClientPtr) (w : World) :
    (handleMute env command conn me w).db.mutes = w.db.mutes ∨
      ∃ room target, permissionCheck env (w.room room).roomName (w.client me).clientName .mute
          w.db ∧
        (handleMute env command conn me w).db.mutes = w.db.mutes.insertOrReplace
          ⟨(w.room room).roomName, (w.client me).clientName, target⟩ := by
  unfold handleMute
  split
  · exact .inl rfl
  · rename_i room _
    simp only
    split_ifs with hperm
    · exact .inl rfl
    · split
      · exact .inl rfl
      · rename_i target _
        simp only [replyResult_db, muteAdd]
        split
        · exact .inr ⟨room, target, by simpa using hperm, rfl⟩
        · exact .inl rfl

theorem handleUnmute_mutes (conn : Conn) (me : ClientPtr) (w : World) :
    (handleUnmute env command conn me w).db.mutes =
      match (w.client me).currentRoom, command.arg1 with
      | some room, some target =>
        if env.sql .muteRemove = .done then
          w.db.mutes.delete fun s => s.roomName = (w.room room).roomName ∧ s.user = target
        else w.db.mutes
      | _, _ => w.db.mutes := by
  unfold handleUnmute
  cases (w.client me).currentRoom with
  | none => rfl
  | some room =>
    cases command.arg1 with
    | none => rfl
    | some target =>
      simp only [replyResult_db, muteRemove]
      split
      · rename_i hsql
        rw [if_pos hsql]
      · rename_i hsql
        rw [if_neg hsql]

theorem handleUnmute_reg (conn : Conn) (me : ClientPtr) (w : World) :
    (handleUnmute env command conn me w).reg = w.reg := by
  unfold handleUnmute replyResult
  split
  · rfl
  · split
    · rfl
    · split_ifs <;> rfl

theorem handleInvite_invites (env : Env) (command : Cmd) (conn : Conn) (me : ClientPtr)
    (w : World) :
    (handleInvite env command conn me w).db.invites = w.db.invites ∨
      ∃ room target, permissionCheck env (w.room room).roomName (w.client me).clientName .invite
          w.db ∧
        (handleInvite env command conn me w).db.invites = w.db.invites.insertOrIgnore
          ⟨(w.room room).roomName, (w.client me).clientName, target⟩ := by
  unfold handleInvite
  split
  · exact .inl rfl
  · rename_i room _
    simp only
    split_ifs with hperm
    · exact .inl rfl
    · split
      · exact .inl rfl
      · rename_i target _
        split_ifs
        · exact .inl rfl
        · unfold inviteCreate
          cases hsql : env.sql .inviteCreate with
          | done =>
            refine .inr ⟨room, target, by simpa using hperm, ?_⟩
            simp only
            split <;> rfl
          | _ => exact .inl rfl

theorem handleAccept_invites (conn : Conn) (me : ClientPtr) (w : World) :
    (handleAccept env command conn me w).db.invites = w.db.invites ∨
      ∃ n, command.arg1 = some n ∧ (handleAccept env command conn me w).db.invites =
        w.db.invites.delete fun i => i.roomName = n ∧ i.invitee = (w.client me).clientName := by
  unfold handleAccept
  cases command.arg1 with
  | none => exact .inl rfl
  | some n =>
    simp only
    split_ifs
    · exact .inl rfl
    · unfold inviteAccept
      cases hsql : env.sql .inviteAccept with
      | done =>
        refine .inr ⟨n, rfl, ?_⟩
        simp only
        split <;> rfl
      | _ =>
        refine .inl ?_
        simp only
        split <;> rfl

theorem handleDecline_invites (conn : Conn) (me : ClientPtr) (w : World) :
    (handleDecline env command conn me w).db.invites = w.db.invites ∨
      ∃ n, command.arg1 = some n ∧ (handleDecline env command conn me w).db.invites =
        w.db.invites.delete fun i => i.roomName = n ∧ i.invitee = (w.client me).clientName := by
  unfold handleDecline
  cases command.arg1 with
  | none => exact .inl rfl
  | some n =>
    simp only [inviteDecline, inviteAccept]
    split
    · exact .inr ⟨n, rfl, rfl⟩
    · exact .inl rfl

/-- A role is written by CREATE_PRIVATE for its sender, or by a DEMOTE that passed its check. -/
theorem roleWritten_entitled {row : RoleRow} (h : Commands w e conn me command)
    (hrow : roleWritten env command me w = some row) :
    SentWithRole w e row.roomName .owner ∨
      command.type = .createPrivate ∧ (∃ r, Creates env w e me command row.roomName r) ∧
        row = ⟨row.roomName, (w.client me).clientName, .owner⟩ := by
  rcases roleWritten_cases hrow with ⟨ht, h₁, hok, heq⟩ | ⟨ht, -, -⟩
  · rcases hmade : createRoom env (some row.roomName) (some me) w.db w.reg with ⟨err, room, reg⟩
    rw [hmade] at hok
    obtain rfl : err = .ok := hok
    obtain ⟨r, rfl, -⟩ := createRoom_ok hmade
    exact .inr ⟨ht, ⟨r, conn, reg, h, .inr ht, h₁, hmade⟩, heq⟩
  · refine .inl ⟨conn, me, command, h, ?_⟩
    unfold roleWritten at hrow
    rw [ht] at hrow
    split at hrow
    · rename_i hcontra _ _
      cases hcontra
    · split_ifs at hrow with hdemote
      obtain rfl := Option.some.inj hrow
      exact role_of_permissionCheck.2.2.2 hdemote.1
    · cases hrow

section Step

variable (env)

theorem mutes_moderated (hc : ¬ UnmutesWithoutRole env w e)
    (hlive : LiveName w n ∨ LiveName (step w (env, e)) n) {s : Sanction}
    (h : w.db.mutes.Changed (step w (env, e)).db.mutes s) (hs : s.roomName = n) :
    SentWithRole w e n .admin := by
  obtain ⟨conn, me, command, hcmd, ht⟩ : ∃ conn me command, Commands w e conn me command ∧
      (command.type = .mute ∨ command.type = .unmute) := by
    by_contra hnone
    have hkeep : (step w (env, e)).db.mutes = w.db.mutes :=
      step_kept (t := .mutes) (by simp [CmdType.writes]) fun conn me command hcmd hwrite => by
        refine hnone ⟨conn, me, command, hcmd, ?_⟩
        cases ht : command.type <;> simp [ht, CmdType.writes] at hwrite ⊢
    exact Table.not_changed_self _ s (hkeep ▸ h)
  rcases ht with ht | ht
  · rw [step_eq_dispatch env hcmd (by simp [ht]), dispatch, ht] at h
    rcases handleMute_mutes env command conn me { w with out := [], broadcasts := [] } with
      hkeep | ⟨room, target, hperm, hadd⟩
    · simp only [hkeep] at h
      exact absurd h (Table.not_changed_self _ s)
    · simp only [hadd] at h
      have hkey := Table.key_eq_of_changed_insertOrReplace h
      obtain rfl : (w.room room).roomName = n := (congrArg Prod.fst hkey).symm.trans hs
      exact ⟨conn, me, command, hcmd, role_of_permissionCheck.1 hperm⟩
  · by_contra hrole
    refine hc ?_
    rw [step_eq_dispatch env hcmd (by simp [ht]), dispatch, ht] at h hlive
    have hlive : LiveName w n := by
      simpa [LiveName, World.room, handleUnmute_reg] using hlive
    simp only [handleUnmute_mutes] at h
    split at h
    · rename_i room target hcur h₁
      split_ifs at h with hsql
      · obtain ⟨hmem, hp⟩ := Table.changed_delete.mp h
        obtain ⟨hroom, htarget⟩ := of_decide_eq_true hp
        have hn : (w.room room).roomName = n := hroom.symm.trans hs
        refine ⟨conn, me, command, room, target, hcmd, ht, h₁, hcur, hn ▸ hlive, hsql,
          ⟨s, hmem, hroom, htarget⟩, not_le.mp fun hle => hrole ⟨conn, me, command, hcmd, ?_⟩⟩
        rwa [hn] at hle
      · exact absurd h (Table.not_changed_self _ s)
    · exact absurd h (Table.not_changed_self _ s)

theorem bans_moderated {s : Sanction} (h : w.db.bans.Changed (step w (env, e)).db.bans s)
    (hs : s.roomName = n) : SentWithRole w e n .owner := by
  obtain ⟨conn, me, command, hcmd, ht⟩ : ∃ conn me command, Commands w e conn me command ∧
      command.type = .ban := by
    by_contra hnone
    have hkeep : (step w (env, e)).db.bans = w.db.bans :=
      step_bans fun conn me command hcmd ht => hnone ⟨conn, me, command, hcmd, ht⟩
    exact Table.not_changed_self _ s (hkeep ▸ h)
  rw [step_eq_dispatch env hcmd (by simp [ht]), dispatch, ht] at h
  have hcases : ((handleBan env command conn me { w with out := [], broadcasts := [] }).db = w.db ∧
      (handleBan env command conn me { w with out := [], broadcasts := [] }).reg = w.reg) ∨ _ :=
        handleBan_cases _
  rcases hcases with ⟨hkeep, -⟩ | ⟨room, target, hcur, hperm, h₁, hsql⟩
  · simp only [hkeep] at h
    exact absurd h (Table.not_changed_self _ s)
  · simp only [(handleBan_done conn hcur hperm h₁ hsql).1] at h
    have hkey := Table.key_eq_of_changed_insertOrReplace h
    obtain rfl : (w.room room).roomName = n := (congrArg Prod.fst hkey).symm.trans hs
    exact ⟨conn, me, command, hcmd, role_of_permissionCheck.2.2.1 hperm⟩

theorem invites_moderated {i : Invite}
    (h : w.db.invites.Changed (step w (env, e)).db.invites i) (hi : i.roomName = n) :
    SentWithRole w e n .admin ∨ ConsumesOwn env w e i := by
  obtain ⟨conn, me, command, hcmd, ht⟩ : ∃ conn me command, Commands w e conn me command ∧
      (command.type = .invite ∨ command.type = .accept ∨ command.type = .decline) := by
    by_contra hnone
    have hkeep : (step w (env, e)).db.invites = w.db.invites :=
      step_kept (t := .invites) (by simp [CmdType.writes]) fun conn me command hcmd hwrite => by
        refine hnone ⟨conn, me, command, hcmd, ?_⟩
        cases ht : command.type <;> simp [ht, CmdType.writes] at hwrite ⊢
    exact Table.not_changed_self _ i (hkeep ▸ h)
  have hown : command.type = .accept ∨ command.type = .decline →
      ((step w (env, e)).db.invites = w.db.invites ∨
        ∃ n, command.arg1 = some n ∧ (step w (env, e)).db.invites = w.db.invites.delete
          fun i => i.roomName = n ∧ i.invitee = (w.client me).clientName) →
      ConsumesOwn env w e i := by
    rintro ht (hkeep | ⟨n', h₁, hdelete⟩)
    · exact absurd (hkeep ▸ h) (Table.not_changed_self _ i)
    · rw [hdelete] at h
      obtain ⟨hmem, hp⟩ := Table.changed_delete.mp h
      obtain ⟨hroom, hinvitee⟩ := of_decide_eq_true hp
      refine ⟨conn, me, command, hcmd, ht, hroom ▸ h₁, hinvitee, fun hstay => ?_⟩
      rw [hdelete] at hstay
      exact h ⟨fun _ => hstay, fun _ => hmem⟩
  rcases ht with ht | ht | ht
  · rw [step_eq_dispatch env hcmd (by simp [ht]), dispatch, ht] at h
    rcases handleInvite_invites env command conn me { w with out := [], broadcasts := [] } with
      hkeep | ⟨room, target, hperm, hadd⟩
    · simp only [hkeep] at h
      exact absurd h (Table.not_changed_self _ i)
    · simp only [hadd] at h
      obtain rfl := Table.eq_of_changed_insertOrIgnore h
      obtain rfl : (w.room room).roomName = n := hi
      exact .inl ⟨conn, me, command, hcmd, role_of_permissionCheck.2.1 hperm⟩
  · refine .inr (hown (.inl ht) ?_)
    rw [step_eq_dispatch env hcmd (by simp [ht]), dispatch, ht]
    exact handleAccept_invites conn me { w with out := [], broadcasts := [] }
  · refine .inr (hown (.inr ht) ?_)
    rw [step_eq_dispatch env hcmd (by simp [ht]), dispatch, ht]
    exact handleDecline_invites conn me { w with out := [], broadcasts := [] }

theorem roles_moderated {row : RoleRow}
    (h : w.db.roomRoles.Changed (step w (env, e)).db.roomRoles row) (hn : row.roomName = n) :
    SentWithRole w e n .owner ∨ OwnsNewRoom env w e row := by
  obtain ⟨conn, me, command, hcmd⟩ : ∃ conn me command, Commands w e conn me command := by
    by_contra hnone
    have hkeep : (step w (env, e)).db.roomRoles = w.db.roomRoles :=
      step_kept (t := .roomRoles) (by simp [CmdType.writes]) fun conn me command hcmd _ =>
        hnone ⟨conn, me, command, hcmd⟩
    exact Table.not_changed_self _ row (hkeep ▸ h)
  have hroles := step_roomRoles env hcmd
  cases hrow : roleWritten env command me w with
  | none =>
    rw [hrow] at hroles
    exact absurd (hroles ▸ h) (Table.not_changed_self _ row)
  | some row' =>
    rw [hrow] at hroles
    simp only at hroles
    rw [hroles] at h
    obtain ⟨hroom, huser⟩ : row.roomName = row'.roomName ∧ row.username = row'.username :=
      Prod.ext_iff.mp (Table.key_eq_of_changed_insertOrReplace h)
    have hrole := role_of_written (n := row.roomName) (u := row.username) hcmd hrow
    rw [if_pos ⟨hroom.symm, huser.symm⟩] at hrole
    rcases roleWritten_entitled hcmd hrow with hsent | ⟨ht, hmade, hown⟩
    · exact .inl (hn ▸ hroom ▸ hsent)
    · obtain ⟨r, hcreates⟩ := hmade
      exact .inr ⟨me, command, r, hroom ▸ hcreates, ht,
        huser.trans (congrArg RoleRow.username hown), hrole.trans (congrArg RoleRow.role hown)⟩

end Step

/--
In every reachable state, an event changes the moderation rows of live rooms
only as its sender is entitled to, exactly if it is no UNMUTE without the role.
-/
theorem moderated_iff (cfg : Config) (db : Database) (start : ℤ) (inputs : List (Env × Event))
    (env : Env) (e : Event) :
    let w := run step (World.init cfg db start) inputs
    (∀ n, LiveName w n ∨ LiveName (step w (env, e)) n → ModeratedBy env w e n) ↔
      ¬ UnmutesWithoutRole env w e := by
  intro w
  constructor
  · rintro h ⟨conn, me, command, room, target, hcmd, ht, h₁, hcur, hlive, hsql,
      ⟨s, hmem, hroom, htarget⟩, hrole⟩
    have hdelete : (step w (env, e)).db.mutes = w.db.mutes.delete
        fun s => s.roomName = (w.room room).roomName ∧ s.user = target := by
      have hcur : (World.client { w with out := [], broadcasts := [] } me).currentRoom =
          some room := hcur
      rw [step_eq_dispatch env hcmd (by simp [ht]), dispatch, ht]
      simp only [handleUnmute_mutes, hcur, h₁, hsql, if_true]
      rfl
    have hchanged : w.db.mutes.Changed (step w (env, e)).db.mutes s := by
      rw [hdelete]
      exact Table.changed_delete.mpr ⟨hmem, decide_eq_true ⟨hroom, htarget⟩⟩
    obtain ⟨conn', me', command', hcmd', hle⟩ := (h _ (.inl hlive)).mutes s hchanged hroom
    obtain ⟨-, rfl, -⟩ := hcmd.unique hcmd'
    exact absurd hrole (not_lt.mpr hle)
  · intro hc n hlive
    exact ⟨fun s => mutes_moderated env hc hlive, fun s => bans_moderated env,
      fun i => invites_moderated env, fun row => roles_moderated env⟩

/-- A muted member of a room lifts its own mute. -/
def unmuteRun : List (Env × Event) :=
  [(.calm 0 0 "t0".toList, .accept 4 false),
   (.calm 0 0 "t0".toList, .accept 5 false),
   (.calm 0 0 "t0".toList, .line 4 "REGISTER alice pw".toList),
   (.calm 0 1 "t1".toList, .line 5 "REGISTER bob pw".toList),
   (.calm 0 0 "t0".toList, .line 4 "CREATE_PRIVATE lounge".toList),
   (.calm 0 0 "t0".toList, .line 4 "MUTE bob".toList),
   (.calm 0 0 "t0".toList, .line 5 "JOIN lounge".toList)]

theorem unmuteRun_not_moderated :
    let w := run step (World.init ⟨4, 4, 4, 10⟩ .empty 0) unmuteRun
    let env := Env.calm 0 0 "t0".toList
    let e := Event.line 5 "UNMUTE bob".toList
    ¬ ∀ n, LiveName w n ∨ LiveName (step w (env, e)) n → ModeratedBy env w e n := by
  intro w env e h
  have hchanged : w.db.mutes.Changed (step w (env, e)).db.mutes
      ⟨"lounge".toList, "alice".toList, "bob".toList⟩ := by
    unfold Table.Changed
    decide +kernel
  obtain ⟨conn, me, command, ⟨text, he, hconn, hme, -⟩, hrole⟩ :=
    (h "lounge".toList (.inl ⟨0, by decide +kernel, by decide +kernel⟩)).mutes _ hchanged rfl
  obtain ⟨hfd, -⟩ := Event.line.inj he
  have hget : w.conns.get 5 = some ⟨5, some 1, false⟩ := by decide +kernel
  rw [← hfd, hget] at hconn
  obtain rfl := Option.some.inj hconn
  obtain rfl := Option.some.inj hme
  exact absurd hrole (by decide +kernel)

end ChatServer
