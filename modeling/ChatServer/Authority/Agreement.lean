import ChatServer.Authority.Admin
import ChatServer.Authority.Roles

/-! # The two authorities of a room

KICK, PROMOTE and DELETE test the admin pointer of a room, and the moderation
commands test the roles of the table. CREATE and PROMOTE assign only the
pointer, DEMOTE only the role. The two agree on the members exactly as long as
every command that touches one of them finds the other one in step.
-/

namespace ChatServer

open Library World Roster

/-- The role suffices for KICK. -/
def MayKick (db : Database) (roomName user : Text) : Prop :=
  RoomRole.admin.rank ≤ (db.role roomName user).rank

instance (db : Database) (roomName user : Text) : Decidable (MayKick db roomName user) :=
  inferInstanceAs (Decidable (_ ≤ _))

/-- On the members of live rooms the admin pointer agrees with the permission check for KICK. -/
def AuthoritiesAgree (w : World) : Prop :=
  ∀ env : Env, env.sql .getRole = .done → ∀ r ∈ w.reg.roomList, ∀ c ∈ (w.room r).members,
    (w.room r).adminClient = some c ↔
      permissionCheck env (w.room r).roomName (w.client c).clientName .kick w.db

/-- JOIN, or an ACCEPT that finds a place, of a live room. -/
def Joins (env : Env) (w : World) (command : Cmd) (me : ClientPtr) (r : RoomPtr) : Prop :=
  (command.type = .join ∧ roomJoined command me w = some r) ∨
    (command.type = .accept ∧ roomAccepted env command me w = some r ∧
      ((acceptLeave me w.reg).rooms r).members.length < (w.room r).memberCapacity)

/-- Each command that touches one authority finds the other one in step. -/
structure KeepsAgreement (w : World) (input : Env × Event) : Prop where
  /-- Whoever enters the room it creates becomes its owner, or already has a role that suffices. -/
  create : ∀ me command n r, Creates input.1 w input.2 me command n r →
    (w.client me).currentRoom = none → 0 < w.reg.maxMembers →
    (roleWritten input.1 command me w).isSome ∨ MayKick w.db n (w.client me).clientName
  /-- Whoever enters another room has a role that suffices just in case it is the admin. -/
  enter : ∀ conn me command r, Commands w input.2 conn me command →
    Joins input.1 w command me r → ((w.room r).adminClient = some me ↔
      MayKick w.db (w.room r).roomName (w.client me).clientName)
  /-- The client promoted and no other member has a role that suffices. -/
  promote : ∀ conn me command r target, Commands w input.2 conn me command →
    command.type = .promote → promoted command me w = some (r, target) → r ∈ w.reg.roomList →
    ∀ c ∈ (w.room r).members,
      c = target ↔ MayKick w.db (w.room r).roomName (w.client c).clientName
  /-- No member of a live room is demoted from admin to moderator. -/
  demote : ∀ conn me command row, Commands w input.2 conn me command →
    command.type = .demote → roleWritten input.1 command me w = some row →
    row.role = .moderator → ∀ r ∈ w.reg.roomList, (w.room r).roomName = row.roomName →
    ∀ c ∈ (w.room r).members, (w.client c).clientName ≠ row.username

variable {env : Env} {w : World} {e : Event} {conn : Conn} {me c : ClientPtr} {command : Cmd}
  {r : RoomPtr} {n u : Text}

theorem authoritiesAgree_iff : AuthoritiesAgree w ↔
    ∀ r ∈ w.reg.roomList, ∀ c ∈ (w.room r).members, (w.room r).adminClient = some c ↔
      MayKick w.db (w.room r).roomName (w.client c).clientName := by
  have hcheck : ∀ (env : Env) n u, env.sql .getRole = .done →
      (permissionCheck env n u .kick w.db ↔ MayKick w.db n u) := by
    intro env n u hsql
    simp [permissionCheck, permissionGetRole_done hsql, MayKick]
  constructor
  · intro h r hr c hc
    rw [h (.calm 0 0 []) rfl r hr c hc, hcheck _ _ _ rfl]
  · intro h env hsql r hr c hc
    rw [h r hr c hc, hcheck _ _ _ hsql]

theorem admin_step (env : Env) (e : Event) (hr : r ∈ w.reg.roomList) :
    ((step w (env, e)).room r).adminClient = (w.room r).adminClient ∨
      ∃ conn me command target, Commands w e conn me command ∧ command.type = .promote ∧
        promoted command me w = some (r, target) ∧
        ((step w (env, e)).room r).adminClient = some target := by
  rcases (step_leads w env e).admin_eq (fun _ _ _ _ h _ => not_close_of_create h) hr with
    hsame | ⟨c, hpromote⟩
  · exact .inl hsame
  · obtain ⟨conn, me, command, hcmd, ht⟩ := promotes_of_does hpromote
    cases hpr : promoted command me w with
    | none =>
      have hreg := step_not_promoted env hcmd ht hpr
      exact .inl (by rw [World.room, hreg, World.room])
    | some p =>
      obtain ⟨room, target⟩ := p
      have hreg := step_promoted env hcmd ht hpr
      rcases eq_or_ne room r with rfl | hne
      · refine .inr ⟨conn, me, command, target, hcmd, ht, hpr, ?_⟩
        simp [World.room, hreg]
      · refine .inl ?_
        simp [World.room, hreg, hne.symm]

theorem role_eq_of_type (env : Env) (h : Commands w e conn me command)
    (hcreate : command.type ≠ .createPrivate) (hdemote : command.type ≠ .demote) :
    (step w (env, e)).db.role n u = w.db.role n u := by
  rcases role_step env w e n u with hsame | ⟨conn', me', command', row, h', hrow, -⟩
  · exact hsame
  · obtain ⟨-, rfl, rfl⟩ := h.unique h'
    rcases roleWritten_cases hrow with ⟨ht, -⟩ | ⟨ht, -⟩
    · exact absurd ht hcreate
    · exact absurd ht hdemote

/-- A member of a live room was one before, has created the room, or has joined it. -/
theorem member_step (hs : w.roster.Sound) (hr : r ∈ (step w (env, e)).reg.roomList)
    (hc : c ∈ ((step w (env, e)).room r).members) :
    (r ∈ w.reg.roomList ∧ c ∈ (w.room r).members ∧
        ((step w (env, e)).client c).clientName = (w.client c).clientName) ∨
      (∃ command n, Creates env w e c command n r ∧ (w.client c).currentRoom = none ∧
        0 < w.reg.maxMembers) ∨
      (r ∈ w.reg.roomList ∧
        ∃ conn command, Commands w e conn c command ∧ Joins env w command c r) := by
  rcases mem_step_roomList hr with hr' | ⟨me, command, n, hcreate⟩
  · rcases (step_leads w env e).member hs hr hc with henter | ⟨-, hc', hname, -⟩
    · obtain ⟨conn, command, hcmd, ⟨-, hnew⟩ | hjoin | ⟨ht, -, -, haccept, hfree⟩⟩ :=
        enter_cases henter
      · exact absurd hr' hnew
      · exact .inr (.inr ⟨hr', conn, command, hcmd, .inl hjoin⟩)
      · exact .inr (.inr ⟨hr', conn, command, hcmd, .inr ⟨ht, haccept, hfree⟩⟩)
    · exact .inl ⟨hr', hc', hname⟩
  · right
    left
    rw [hcreate.members] at hc
    split_ifs at hc with hin
    · obtain rfl := List.mem_singleton.mp hc
      exact ⟨command, n, hcreate, hin⟩
    · cases hc

theorem joins_step (h : Commands w e conn me command) (hjoin : Joins env w command me r) :
    r ∈ w.reg.roomList ∧ (step w (env, e)).reg.roomList = w.reg.roomList ∧
      me ∈ ((step w (env, e)).room r).members ∧
      ((step w (env, e)).room r).adminClient = (w.room r).adminClient ∧
      ∀ n u, (step w (env, e)).db.role n u = w.db.role n u := by
  have hdata : r ∈ w.reg.roomList ∧ (step w (env, e)).reg = moveTo me r w.reg ∧
      ((acceptLeave me w.reg).rooms r).members.length < (w.room r).memberCapacity ∧
      (command.type = .join ∨ command.type = .accept) := by
    rcases hjoin with ⟨ht, hjoin⟩ | ⟨ht, haccept, hfree⟩
    · obtain ⟨hr, hfree⟩ := roomJoined_some hjoin
      exact ⟨hr, step_joined env h ht hjoin, hfree, .inl ht⟩
    · obtain ⟨n, -, -, hr, -⟩ := roomAccepted_some haccept
      exact ⟨hr, step_accepted h ht haccept, hfree, .inr ht⟩
  obtain ⟨hr, hreg, hfree, ht⟩ := hdata
  refine ⟨hr, by rw [hreg, moveTo_roomList], ?_, ?_, fun n u => role_eq_of_type env h ?_ ?_⟩
  · rw [World.room, hreg]
    exact mem_moveTo hfree
  · rcases admin_step env e hr with hsame | ⟨conn', me', command', target, h', hpromote, -⟩
    · exact hsame
    · obtain ⟨-, -, rfl⟩ := h.unique h'
      rcases ht with ht | ht <;> rw [ht] at hpromote <;> cases hpromote
  · rcases ht with ht | ht <;> simp [ht]
  · rcases ht with ht | ht <;> simp [ht]

theorem agree_of_stays (h : KeepsAgreement w (env, e)) (hr : r ∈ w.reg.roomList)
    (hc : c ∈ (w.room r).members)
    (hagree : (w.room r).adminClient = some c ↔
      MayKick w.db (w.room r).roomName (w.client c).clientName) :
    ((step w (env, e)).room r).adminClient = some c ↔
      MayKick (step w (env, e)).db (w.room r).roomName (w.client c).clientName := by
  rcases admin_step env e hr with hadmin | ⟨conn, me, command, target, hcmd, ht, hpr, hadmin⟩
  · rw [hadmin, hagree]
    rcases role_step env w e (w.room r).roomName (w.client c).clientName with
      hsame | ⟨conn, me, command, row, hcmd, hrow, hn, hu, hrole⟩
    · rw [MayKick, MayKick, hsame]
    · obtain ⟨ht, hne, hlower⟩ := demote_of_live hrow hr hn
      have hmod : row.role ≠ .moderator := fun hmod =>
        h.demote conn me command row hcmd ht hrow hmod r hr hn.symm c hc hu.symm
      rw [MayKick, MayKick, hrole, hlower]
      rw [hlower] at hmod
      rw [hn, hu] at hne hmod ⊢
      -- an owner is lowered to admin and a moderator to member
      cases hbefore : w.db.role (w.room r).roomName (w.client c).clientName with
      | member => exact absurd hbefore hne
      | moderator => decide
      | admin => exact absurd (by rw [hbefore]; rfl) hmod
      | owner => decide
  · rw [hadmin, MayKick, role_eq_of_type env hcmd (by simp [ht]) (by simp [ht]), Option.some.injEq,
      eq_comm]
    exact h.promote conn me command r target hcmd ht hpr hr c hc

/-- A step keeps the agreement if its command finds both authorities in step. -/
theorem authoritiesAgree_step (hs : w.roster.Sound) (h : AuthoritiesAgree w)
    (hkeep : KeepsAgreement w (env, e)) : AuthoritiesAgree (step w (env, e)) := by
  rw [authoritiesAgree_iff] at h ⊢
  intro r hr c hc
  rcases member_step hs hr hc with ⟨hr', hc', hname⟩ | ⟨command, n, hcreate, hout, hpos⟩ |
    ⟨hr', conn, command, hcmd, hjoin⟩
  · rw [hname, step_roomName hr']
    exact agree_of_stays hkeep hr' hc' (h r hr' c hc')
  · obtain ⟨conn, hcmd⟩ := hcreate.commands
    refine iff_of_true hcreate.admin ?_
    rw [hcreate.roomName, hcmd.clientName env c]
    cases hrow : roleWritten env command c w with
    | none =>
      rw [MayKick, role_of_not_written hcmd hrow]
      exact (hkeep.create c command n r hcreate hout hpos).resolve_left (by simp [hrow])
    | some row =>
      rw [MayKick, role_of_written hcmd hrow]
      obtain rfl := hcreate.owner hrow
      have howner : RoomRole.admin.rank ≤ RoomRole.owner.rank := by decide
      rwa [if_pos ⟨rfl, rfl⟩]
  · obtain ⟨-, -, -, hadmin, hrole⟩ := joins_step hcmd hjoin
    rw [hadmin, hcmd.clientName env c, step_roomName hr', MayKick, hrole]
    exact hkeep.enter conn c command r hcmd hjoin

theorem keepsAgreement_of_step (h : AuthoritiesAgree w)
    (hafter : AuthoritiesAgree (step w (env, e))) : KeepsAgreement w (env, e) := by
  rw [authoritiesAgree_iff] at h hafter
  constructor
  · intro me command n r hcreate hout hpos
    obtain ⟨conn, hcmd⟩ := hcreate.commands
    have hmember : me ∈ ((step w (env, e)).room r).members := by
      rw [hcreate.members, if_pos ⟨hout, hpos⟩]
      exact List.mem_singleton_self me
    have hmay := (hafter r hcreate.mem_roomList me hmember).mp hcreate.admin
    rw [hcreate.roomName, hcmd.clientName env me] at hmay
    cases hrow : roleWritten env command me w with
    | none =>
      rw [MayKick, role_of_not_written hcmd hrow] at hmay
      exact .inr hmay
    | some row => exact .inl (by simp)
  · intro conn me command r hcmd hjoin
    obtain ⟨hr, hlist, hme, hadmin, hrole⟩ := joins_step hcmd hjoin
    have hagree := hafter r (hlist ▸ hr) me hme
    rwa [hadmin, hcmd.clientName env me, step_roomName hr, MayKick, hrole] at hagree
  · intro conn me command r target hcmd ht hpr hr c hc
    have hreg := step_promoted env hcmd ht hpr
    have hagree := hafter r (by rw [hreg]; exact hr) c (by
      simpa [World.room, hreg] using hc)
    have hadmin : ((step w (env, e)).room r).adminClient = some target := by
      simp [World.room, hreg]
    rw [hadmin, hcmd.clientName env c, step_roomName hr, MayKick,
      role_eq_of_type env hcmd (by simp [ht]) (by simp [ht]), Option.some.injEq, eq_comm] at hagree
    exact hagree
  · intro conn me command row hcmd ht hrow hmod r hr hn c hc hu
    -- the member was an admin by both authorities, and loses the role only
    obtain ⟨-, hne, hlower⟩ := demote_of_live hrow hr hn.symm
    have hroster : (step w (env, e)).roster = w.roster := by
      rw [step_eq_dispatch env hcmd (by simp [ht]), dispatch, ht]
      exact handleDemote_roster
    have hadmin : ((step w (env, e)).room r).adminClient = (w.room r).adminClient :=
      congrFun (congrArg Roster.admin hroster) r
    have hrooms : (step w (env, e)).reg.roomList = w.reg.roomList :=
      congrArg Roster.rooms hroster
    have hmembers : ((step w (env, e)).room r).members = (w.room r).members :=
      congrFun (congrArg Roster.members hroster) r
    have hagree := hafter r (hrooms ▸ hr) c (hmembers ▸ hc)
    rw [hadmin, hcmd.clientName env c, step_roomName hr, h r hr c hc, MayKick, MayKick,
      role_of_written hcmd hrow, if_pos ⟨hn.symm, hu.symm⟩, hn, hu, hmod] at hagree
    rw [hlower] at hmod
    cases hbefore : w.db.role row.roomName row.username <;> rw [hbefore] at hmod hagree
    · cases hmod
    · cases hmod
    · exact absurd (hagree.mp (by decide)) (by decide)
    · cases hmod

/--
In every state a run reaches the two authorities agree on the members of live
rooms exactly if every command that touches one of them finds the other in step.
-/
theorem authorities_agree_iff (cfg : Config) (db : Database) (start : ℤ)
    (inputs : List (Env × Event)) :
    (∀ pre, pre <+: inputs → AuthoritiesAgree (run step (World.init cfg db start) pre)) ↔
      Along step KeepsAgreement (World.init cfg db start) inputs := by
  have hstart := roster_init cfg db start
  refine (along_iff_prefixes (J := fun w => w.roster.Sound) ?_ ?_ ?_ hstart.sound ?_).symm
  · exact fun w input hs => (step_leads w input.1 input.2).sound hs
  · exact fun w input hs h hkeep => authoritiesAgree_step hs h hkeep
  · exact fun w input _ h hbad hafter => hbad (keepsAgreement_of_step h hafter)
  · exact fun env _ r hr => absurd hr (List.eq_nil_iff_forall_not_mem.mp hstart.rooms r)

/-- CREATE makes its sender the admin without a role. -/
def publicRoomRun : List (Env × Event) :=
  [(.calm 0 0 "t0".toList, .accept 4 false),
   (.calm 0 0 "t0".toList, .line 4 "REGISTER alice pw".toList),
   (.calm 0 0 "t0".toList, .line 4 "CREATE lounge".toList)]

theorem publicRoomRun_disagrees :
    ¬ AuthoritiesAgree (run step (World.init ⟨4, 4, 4, 10⟩ .empty 0) publicRoomRun) := by
  intro h
  have hagree := h (.calm 0 0 []) rfl 0 (by decide +kernel) 0 (by decide +kernel)
  exact absurd (hagree.mp (by decide +kernel)) (by decide +kernel)

end ChatServer
