import ChatServer.Access.Tables
import ChatServer.Membership.Entry

/-! # Bans

The table of bans is written by BAN and read by no command. A ban keeps its
user out exactly as long as no banned user enters, and BAN finds the only
client of the user it bans.
-/

namespace ChatServer

open Library World Roster

def Banned (db : Database) (roomName user : Text) : Prop :=
  ∃ s ∈ db.bans.rows, s.roomName = roomName ∧ s.user = user

/-- No member of a live room is banned from it. -/
def BansHold (w : World) : Prop :=
  ∀ r ∈ w.reg.roomList, ∀ c ∈ (w.room r).members,
    ¬ Banned w.db (w.room r).roomName (w.client c).clientName

/--
No command lets a banned user in, and a BAN that takes effect finds, in the
room it is sent from, every member of a room of that name it bans.
-/
structure RespectsBans (w : World) (input : Env × Event) : Prop where
  enter : ∀ conn me command n, Commands w input.2 conn me command →
    Enters input.1 w command me n → ¬ Banned w.db n (w.client me).clientName
  evict : ∀ conn me command room target, Commands w input.2 conn me command →
    command.type = .ban → command.arg1 = some target → (w.client me).currentRoom = some room →
    permissionCheck input.1 (w.room room).roomName (w.client me).clientName .ban w.db →
    input.1.sql .banAdd = .done →
    ∀ r ∈ w.reg.roomList, (w.room r).roomName = (w.room room).roomName →
    ∀ c ∈ (w.room r).members, (w.client c).clientName = target →
      r = room ∧ (findClient (some target) w.reg).2 = some c

variable {env : Env} {w : World} {e : Event} {conn : Conn} {me c : ClientPtr} {command : Cmd}
  {r room : RoomPtr} {n u target : Text} {db db' : Database}

theorem banCheck_iff (hsql : env.sql .banCheck = .done) : banCheck env n u db ↔ Banned db n u := by
  simp [banCheck, hsql, Banned, List.filter_eq_nil_iff]

theorem banned_insertOrReplace {row : Sanction} (h : db'.bans = db.bans.insertOrReplace row) :
    Banned db' n u ↔ Banned db n u ∨ (row.roomName = n ∧ row.user = u) := by
  simp only [Banned, h, Table.insertOrReplace, List.mem_append, List.mem_filter, List.mem_singleton]
  constructor
  · rintro ⟨s, ⟨hs, -⟩ | rfl, hn, hu⟩
    · exact .inl ⟨s, hs, hn, hu⟩
    · exact .inr ⟨hn, hu⟩
  · rintro (⟨s, hs, hn, hu⟩ | ⟨hn, hu⟩)
    · by_cases hkey : s.key = row.key
      · have hrow : row.roomName = s.roomName ∧ row.user = s.user := by
          simpa [Sanction.key, eq_comm] using hkey
        exact ⟨row, .inr rfl, hrow.1.trans hn, hrow.2.trans hu⟩
      · exact ⟨s, .inl ⟨hs, by simpa using hkey⟩, hn, hu⟩
    · exact ⟨row, .inr rfl, hn, hu⟩

/-- The row a BAN writes. -/
def banRow (w : World) (room : RoomPtr) (me : ClientPtr) (target : Text) : Sanction :=
  ⟨(w.room room).roomName, (w.client me).clientName, target⟩

theorem evictBanned_reg : (evictBanned room target { w with db }).reg =
    (evictBanned room target w).reg := by
  simp only [evictBanned]
  cases (findClient (some target) w.reg).2 with
  | none => rfl
  | some b => by_cases hin : (w.reg.clients b).currentRoom = some room <;> simp [World.client, hin]

theorem handleBan_done (conn : Conn) (hcur : (w.client me).currentRoom = some room)
    (hperm : permissionCheck env (w.room room).roomName (w.client me).clientName .ban w.db)
    (h₁ : command.arg1 = some target) (hsql : env.sql .banAdd = .done) :
    (handleBan env command conn me w).db.bans =
        w.db.bans.insertOrReplace (banRow w room me target) ∧
      (handleBan env command conn me w).reg = (evictBanned room target w).reg := by
  obtain ⟨db, hdb, hban⟩ : ∃ db : Database,
      db.bans = w.db.bans.insertOrReplace (banRow w room me target) ∧
      handleBan env command conn me w =
        (evictBanned room target { w with db }).replyOk conn okBanned := by
    simp only [handleBan, hcur, hperm, h₁, banAdd, hsql, Bool.not_true, Bool.false_eq_true,
      if_false]
    exact ⟨_, rfl, rfl⟩
  rw [hban, replyOk_eq, reply_eq, emit_db, emit_reg, evictBanned_db, evictBanned_reg]
  exact ⟨hdb, rfl⟩

theorem handleBan_cases (w : World) :
    ((handleBan env command conn me w).db = w.db ∧ (handleBan env command conn me w).reg = w.reg) ∨
      ∃ room target, (w.client me).currentRoom = some room ∧
        permissionCheck env (w.room room).roomName (w.client me).clientName .ban w.db ∧
        command.arg1 = some target ∧ env.sql .banAdd = .done := by
  unfold handleBan
  split
  · exact .inl ⟨rfl, rfl⟩
  · rename_i room hcur
    simp only
    split_ifs with hperm
    · exact .inl ⟨rfl, rfl⟩
    · split
      · exact .inl ⟨rfl, rfl⟩
      · rename_i target h₁
        by_cases hsql : env.sql .banAdd = .done
        · exact .inr ⟨room, target, hcur, by simpa using hperm, h₁, hsql⟩
        · have hfail : banAdd env (w.room room).roomName (w.client me).clientName target w.db =
              (false, w.db) := by
            unfold banAdd
            split
            · exact absurd ‹_› hsql
            · rfl
          rw [hfail]
          exact .inl ⟨rfl, rfl⟩

theorem evictBanned_frame (w : World) (room : RoomPtr) (target : Text) :
    (evictBanned room target w).reg.roomList = w.reg.roomList ∧
    (∀ r, ((evictBanned room target w).reg.rooms r).roomName = (w.room r).roomName) ∧
    ∀ c, ((evictBanned room target w).reg.clients c).clientName = (w.client c).clientName := by
  unfold evictBanned
  split
  · exact ⟨rfl, fun _ => rfl, fun _ => rfl⟩
  · split_ifs
    · rename_i b _ _
      have hleave : rosterOf ((roomRemoveMember (some room) (some b) w.reg).2.setCurrentRoom b none)
          w.conns = w.roster.apply (.leave b room) := rosterOf_leave
      exact ⟨congrArg Roster.rooms hleave, fun r => congrFun (congrArg Roster.title hleave) r,
        fun c => congrFun (congrArg Roster.name hleave) c⟩
    · exact ⟨rfl, fun _ => rfl, fun _ => rfl⟩

theorem mem_evictBanned (hs : w.roster.Sound) (hr : r ∈ w.reg.roomList) :
    c ∈ ((evictBanned room target w).reg.rooms r).members ↔
      c ∈ (w.room r).members ∧ ¬ (r = room ∧ (findClient (some target) w.reg).2 = some c) := by
  unfold evictBanned
  split
  · rename_i hfind
    simp [hfind, World.room]
  · rename_i b hfind
    split_ifs with hin
    · have hleave : rosterOf ((roomRemoveMember (some room) (some b) w.reg).2.setCurrentRoom b none)
          w.conns = w.roster.apply (.leave b room) := rosterOf_leave
      have hmembers : (((roomRemoveMember (some room) (some b) w.reg).2.setCurrentRoom b none).rooms
          r).members = Function.update w.roster.members room ((w.room room).members.erase b) r :=
        congrFun (congrArg Roster.members hleave) r
      simp only [rawSend_eq, emit_reg]
      rw [hmembers]
      rcases eq_or_ne r room with rfl | hne
      · have hnodup : (w.room r).members.Nodup := hs.seated.members_nodup hr
        rw [Function.update_self, hnodup.mem_erase_iff, hfind]
        simp [and_comm, eq_comm, World.room]
      · rw [Function.update_of_ne hne]
        simp [hne, World.roster, rosterOf, World.room]
    · rw [hfind]
      constructor
      · intro hc
        refine ⟨hc, ?_⟩
        rintro ⟨rfl, hb⟩
        obtain rfl := Option.some.inj hb
        exact hin (hs.seated.of_member hr hc).2
      · exact And.left

theorem banned_congr (h : db'.bans = db.bans) : Banned db' n u ↔ Banned db n u := by
  rw [Banned, h, Banned]

theorem step_bans (h : ∀ conn me command, Commands w e conn me command → command.type ≠ .ban) :
    (step w (env, e)).db.bans = w.db.bans := by
  refine step_kept (t := .bans) (by simp [CmdType.writes]) fun conn me command hcmd hwrite => ?_
  have hban : command.type = .ban := by
    cases ht : command.type <;> simp [ht, CmdType.writes] at hwrite
    rfl
  exact h conn me command hcmd hban

/-- Where BAN takes effect, it leaves exactly the members it does not find and evict. -/
theorem step_ban (hs : w.roster.Sound) (h : Commands w e conn me command)
    (ht : command.type = .ban) (h₁ : command.arg1 = some target)
    (hcur : (w.client me).currentRoom = some room)
    (hperm : permissionCheck env (w.room room).roomName (w.client me).clientName .ban w.db)
    (hsql : env.sql .banAdd = .done) :
    (∀ n u, Banned (step w (env, e)).db n u ↔
      Banned w.db n u ∨ ((w.room room).roomName = n ∧ target = u)) ∧
    (step w (env, e)).reg.roomList = w.reg.roomList ∧
    (∀ r, ((step w (env, e)).room r).roomName = (w.room r).roomName) ∧
    (∀ c, ((step w (env, e)).client c).clientName = (w.client c).clientName) ∧
    ∀ r ∈ w.reg.roomList, ∀ c, c ∈ ((step w (env, e)).room r).members ↔
      c ∈ (w.room r).members ∧ ¬ (r = room ∧ (findClient (some target) w.reg).2 = some c) := by
  obtain ⟨hbans, hreg⟩ := handleBan_done conn (w :=
      { w with out := [], broadcasts := [] }) hcur hperm h₁ hsql
  obtain ⟨hlist, hname, hclient⟩ := evictBanned_frame { w with out := [], broadcasts := [] } room
      target
  have hstep : step w (env, e) = handleBan env command conn me
      { w with out := [], broadcasts := [] } := by
    rw [step_eq_dispatch env h (by simp [ht]), dispatch, ht]
  rw [← hreg] at hlist hname hclient
  rw [hstep]
  refine ⟨fun n u => banned_insertOrReplace hbans, hlist, hname, hclient, fun r hr c => ?_⟩
  rw [World.room, hreg]
  exact mem_evictBanned (w := { w with out := [], broadcasts := [] }) hs hr

theorem step_ban_cases (env : Env) (h : Commands w e conn me command) (ht : command.type = .ban) :
    ((step w (env, e)).db = w.db ∧ (step w (env, e)).reg = w.reg) ∨
      ∃ room target, command.arg1 = some target ∧ (w.client me).currentRoom = some room ∧
        permissionCheck env (w.room room).roomName (w.client me).clientName .ban w.db ∧
        env.sql .banAdd = .done := by
  rw [step_eq_dispatch env h (by simp [ht]), dispatch, ht]
  rcases handleBan_cases { w with out := [], broadcasts := [] } with hkeep | ⟨room, target, hcur,
      hperm, h₁, hsql⟩
  · exact .inl hkeep
  · exact .inr ⟨room, target, h₁, hcur, hperm, hsql⟩

theorem bansHold_step (hs : w.roster.Sound) (h : BansHold w) (hc : RespectsBans w (env, e)) :
    BansHold (step w (env, e)) := by
  by_cases hban : ∀ conn me command, Commands w e conn me command → command.type ≠ .ban
  · have hclear : (step w (env, e)).roster.Clear (Banned w.db) := by
      refine (step_leads w env e).clear (fun c r n hdoes => ?_) hs h
      obtain ⟨conn, command, hcmd, henter⟩ := enters_of_does hdoes
      exact ⟨fun fd c' n' => hcmd.not_login, hc.enter conn c command n hcmd henter⟩
    intro r hr c hmem hbanned
    exact hclear r hr c hmem ((banned_congr (step_bans hban)).mp hbanned)
  · simp only [not_forall, not_not] at hban
    obtain ⟨conn, me, command, hcmd, ht⟩ := hban
    rcases step_ban_cases env hcmd ht with ⟨hdb, hreg⟩ | ⟨room, target, h₁, hcur, hperm, hsql⟩
    · unfold BansHold World.room World.client
      rw [hdb, hreg]
      exact h
    · obtain ⟨hbans, hlist, hname, hclient, hmem⟩ := step_ban hs hcmd ht h₁ hcur hperm hsql
      intro r hr c hc'
      rw [hlist] at hr
      obtain ⟨hin, hleft⟩ := (hmem r hr c).mp hc'
      rw [hname, hclient, hbans]
      rintro (hbanned | ⟨hroom, htarget⟩)
      · exact h r hr c hin hbanned
      · exact hleft (hc.evict conn me command room target hcmd ht h₁ hcur hperm hsql r hr
          hroom.symm c hin htarget.symm)

theorem respectsBans_of_step (hs : w.roster.Sound) (h : BansHold (step w (env, e))) :
    RespectsBans w (env, e) := by
  constructor
  · intro conn me command n hcmd henter hbanned
    obtain ⟨r, hr, hn, hmem, hu⟩ := joined_of_enters hcmd henter
    refine h r hr me hmem ?_
    rw [World.room, World.client, hn, hu]
    refine (banned_congr (step_bans fun conn' me' command' hcmd' => ?_)).mpr hbanned
    obtain ⟨-, -, rfl⟩ := hcmd.unique hcmd'
    cases henter with
    | create ht => rcases ht with ht | ht <;> simp [ht]
    | join ht => simp [ht]
    | accept ht => simp [ht]
  · intro conn me command room target hcmd ht h₁ hcur hperm hsql r hr hroom c hmem hu
    by_contra hne
    obtain ⟨hbans, hlist, hname, hclient, hleft⟩ := step_ban hs hcmd ht h₁ hcur hperm hsql
    refine h r (hlist ▸ hr) c ((hleft r hr c).mpr ⟨hmem, hne⟩) ?_
    rw [hname, hclient, hbans]
    exact .inr ⟨hroom.symm, hu.symm⟩

/--
Bans are in force in every state a run reaches exactly if no banned user
enters and every BAN finds the one client of the user it bans.
-/
theorem bansHold_iff_respectsBans (cfg : Config) (db : Database) (start : ℤ)
    (inputs : List (Env × Event)) :
    (∀ pre, pre <+: inputs → BansHold (run step (World.init cfg db start) pre)) ↔
      Along step RespectsBans (World.init cfg db start) inputs := by
  refine (along_iff_prefixes (J := fun w => w.roster.Sound) ?_ ?_ ?_
    (roster_init cfg db start).sound ?_).symm
  · exact fun w input hs => (step_leads w input.1 input.2).sound hs
  · exact fun w input hs h hc => bansHold_step hs h hc
  · exact fun w input hs _ hc h => hc (respectsBans_of_step hs h)
  · exact fun r hr => absurd hr List.not_mem_nil

/-- A banned user joins the room again. -/
def rejoinRun : List (Env × Event) :=
  [(.calm 0 0 "t0".toList, .accept 4 false),
   (.calm 0 0 "t0".toList, .accept 5 false),
   (.calm 0 0 "t0".toList, .line 4 "REGISTER alice pw".toList),
   (.calm 0 1 "t1".toList, .line 5 "REGISTER bob pw".toList),
   (.calm 0 0 "t0".toList, .line 4 "CREATE_PRIVATE lounge".toList),
   (.calm 0 0 "t0".toList, .line 4 "BAN bob".toList),
   (.calm 0 0 "t0".toList, .line 5 "JOIN lounge".toList)]

theorem rejoinRun_not_bansHold :
    ¬ BansHold (run step (World.init ⟨4, 4, 4, 10⟩ .empty 0) rejoinRun) := by
  intro h
  refine h 0 (by decide +kernel) 1 (by decide +kernel) ?_
  exact ⟨⟨"lounge".toList, "alice".toList, "bob".toList⟩, by decide +kernel, by decide +kernel,
    by decide +kernel⟩

end ChatServer
