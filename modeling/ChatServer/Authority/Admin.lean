import ChatServer.Membership.Entry
import ChatServer.Membership.Identity

/-! # Who administers a room

A room keeps the address of its admin, which only its creation and PROMOTE
assign. The address refers to a client of the registry in every state of a
run exactly if no client logs out while a room it administers lives on; then
whoever passes the admin test was granted the role, and nobody gains it by
being handed the address of a former client.
-/

namespace ChatServer

open Library World Roster

namespace Roster

variable {R C N F : Type*} {P : Act R C N F → Prop} {s t : Roster R C N F} {r : R} {c : C}

/-- The admins of live rooms are clients. -/
def AdminsListed (s : Roster R C N F) : Prop :=
  ∀ r ∈ s.rooms, ∀ c, s.admin r = some c → c ∈ s.clients

/-- The client is the admin of a room that is live, or where it still is. -/
def Administers (s : Roster R C N F) (c : C) (r : R) : Prop :=
  s.admin r = some c ∧ (r ∈ s.rooms ∨ c ∈ s.clients ∧ s.location c = some r)

variable [DecidableEq R] [DecidableEq C] [DecidableEq F]

theorem AdminsListed.apply {a : Act R C N F} (h : s.AdminsListed) (hs : s.Linked)
    (ha : s.Enabled a) (hlogout : ∀ fd c, a ≠ .logout fd c) : (s.apply a).AdminsListed := by
  cases a with
  | logout fd c => exact absurd rfl (hlogout fd c)
  | login fd c n => exact fun r hr c' hc' => List.mem_append_left _ (h r hr c' hc')
  | create r c n cap =>
    intro r' hr' c' hc'
    rcases List.mem_append.mp hr' with hr' | hr'
    · have hne : r' ≠ r := fun he => ha.1 (he ▸ hr')
      exact h r' hr' c' (by simpa [Roster.apply, hne] using hc')
    · obtain rfl := List.mem_singleton.mp hr'
      obtain rfl : c = c' := by simpa [Roster.apply] using hc'
      exact hs.mem_of_online ha.2.2
  | close r => exact fun r' hr' => h r' (List.mem_of_mem_erase hr')
  | promote r c =>
    intro r' hr' c' hc'
    rcases eq_or_ne r' r with rfl | hne
    · obtain rfl : c = c' := by simpa [Roster.apply] using hc'
      exact ha.1
    · exact h r' hr' c' (by simpa [Roster.apply, hne] using hc')
  | _ => exact h

theorem Leads.adminsListed (hp : Leads P s t) (hP : ∀ fd c, ¬ P (.logout fd c)) (hs : s.Sound)
    (h : s.AdminsListed) : t.AdminsListed := by
  refine (hp.invariant (I := fun s => s.Sound ∧ s.AdminsListed) ?_ ⟨hs, h⟩).2
  rintro s a ⟨hs, h⟩ ⟨hPa, ha⟩
  exact ⟨hs.apply ha, h.apply hs.linked ha (by rintro fd c rfl; exact hP fd c hPa)⟩

omit [DecidableEq R] [DecidableEq F] in
/-- A client that sits down in a live room administers only a room it could administer before. -/
theorem live_of_seat {c' : C} {r' : R} (hr : r' ∈ s.rooms)
    (h : r ∈ s.rooms ∨ c ∈ s.clients ∧ Function.update s.location c' (some r') c = some r) :
    r ∈ s.rooms ∨ c ∈ s.clients ∧ s.location c = some r := by
  rcases h with h | ⟨hc, hloc⟩
  · exact .inl h
  · rcases eq_or_ne c c' with rfl | hcc
    · obtain rfl : r' = r := by simpa using hloc
      exact .inl hr
    · exact .inr ⟨hc, by simpa [hcc] using hloc⟩

theorem Administers.of_apply {a : Act R C N F} (ha : s.Enabled a)
    (h : (s.apply a).Administers c r) :
    s.Administers c r ∨ (∃ n cap, a = .create r c n cap) ∨ a = .promote r c := by
  obtain ⟨hadmin, hlive⟩ := h
  cases a with
  | login fd c' n =>
    refine .inl ⟨hadmin, hlive.imp_right ?_⟩
    rintro ⟨hc, hloc⟩
    have hcc : c ≠ c' := by rintro rfl; simp [Roster.apply] at hloc
    exact ⟨by simpa [Roster.apply, hcc] using hc, by simpa [Roster.apply, hcc] using hloc⟩
  | logout fd c' =>
    exact .inl ⟨hadmin, hlive.imp_right fun h => ⟨List.mem_of_mem_erase h.1, h.2⟩⟩
  | create r' c' n cap =>
    rcases eq_or_ne r r' with rfl | hne
    · obtain rfl : c' = c := by simpa [Roster.apply] using hadmin
      exact .inr (.inl ⟨n, cap, rfl⟩)
    · refine .inl ⟨by simpa [Roster.apply, hne] using hadmin, hlive.imp_left fun hr => ?_⟩
      simpa [Roster.apply, hne] using hr
  | close r' => exact .inl ⟨hadmin, hlive.imp_left List.mem_of_mem_erase⟩
  | enter c' r' n => exact .inl ⟨hadmin, live_of_seat ha.1 hlive⟩
  | sit c' r' n => exact .inl ⟨hadmin, live_of_seat ha.1 hlive⟩
  | leave c' r' =>
    refine .inl ⟨hadmin, hlive.imp_right ?_⟩
    rintro ⟨hc, hloc⟩
    have hcc : c ≠ c' := by rintro rfl; simp [Roster.apply] at hloc
    exact ⟨hc, by simpa [Roster.apply, hcc] using hloc⟩
  | promote r' c' =>
    rcases eq_or_ne r r' with rfl | hne
    · obtain rfl : c' = c := by simpa [Roster.apply] using hadmin
      exact .inr (.inr rfl)
    · exact .inl ⟨by simpa [Roster.apply, hne] using hadmin, hlive⟩
  | _ => exact .inl ⟨hadmin, hlive⟩

theorem Leads.administers (hp : Leads P s t)
    (hP : ∀ r c n cap, P (.create r c n cap) → ∀ r, ¬ P (.close r)) (h : t.Administers c r) :
    s.Administers c r ∨ (∃ n cap, P (.create r c n cap) ∧ r ∉ s.rooms ∧ r ∈ t.rooms) ∨
      P (.promote r c) := by
  let I (u : Roster R C N F) : Prop := ((∀ r, ¬ P (.close r)) → ∀ r ∈ s.rooms, r ∈ u.rooms) ∧
    (u.Administers c r → s.Administers c r ∨
      (∃ n cap, P (.create r c n cap) ∧ r ∉ s.rooms ∧ r ∈ u.rooms) ∨ P (.promote r c))
  refine (hp.invariant (I := I) ?_ ⟨fun _ r hr => hr, .inl⟩).2 h
  rintro u a ⟨hmono, hi⟩ ⟨hPa, ha⟩
  have hrooms : (∀ r, ¬ P (.close r)) → ∀ r ∈ u.rooms, r ∈ (u.apply a).rooms :=
    fun hclose r hr => mem_apply_rooms (by rintro r' rfl; exact hclose r' hPa) hr
  refine ⟨fun hclose r hr => hrooms hclose r (hmono hclose r hr), fun h => ?_⟩
  rcases Administers.of_apply ha h with h | ⟨n, cap, rfl⟩ | rfl
  · rcases hi h with h | ⟨n, cap, hcreate, hnew, hr⟩ | h
    · exact .inl h
    · exact .inr (.inl ⟨n, cap, hcreate, hnew, hrooms (hP _ _ _ _ hcreate) r hr⟩)
    · exact .inr (.inr h)
  · refine .inr (.inl ⟨n, cap, hPa, fun hr => ha.1 (hmono (hP _ _ _ _ hPa) r hr), ?_⟩)
    exact List.mem_append_right _ (List.mem_singleton_self r)
  · exact .inr (.inr hPa)

theorem Leads.admin_eq (hp : Leads P s t)
    (hP : ∀ r c n cap, P (.create r c n cap) → ∀ r, ¬ P (.close r)) (hr : r ∈ s.rooms) :
    t.admin r = s.admin r ∨ ∃ c, P (.promote r c) := by
  let I (u : Roster R C N F) : Prop := ((∀ r, ¬ P (.close r)) → r ∈ u.rooms) ∧
    (u.admin r = s.admin r ∨ ∃ c, P (.promote r c))
  refine (hp.invariant (I := I) ?_ ⟨fun _ => hr, .inl rfl⟩).2
  rintro u a ⟨hmono, hi⟩ ⟨hPa, ha⟩
  refine ⟨fun hclose => mem_apply_rooms (by rintro r' rfl; exact hclose r' hPa) (hmono hclose), ?_⟩
  cases a with
  | create r' c n cap =>
    have hne : r ≠ r' := fun he => ha.1 (he ▸ hmono (hP _ _ _ _ hPa))
    simpa [Roster.apply, hne] using hi
  | promote r' c =>
    rcases eq_or_ne r r' with rfl | hne
    · exact .inr ⟨c, hPa⟩
    · simpa [Roster.apply, hne] using hi
  | _ => exact hi

end Roster

/-- The test of KICK, PROMOTE and DELETE in the room a client is in. -/
def PassesAdminTest (w : World) (me : ClientPtr) (r : RoomPtr) : Prop :=
  (w.client me).currentRoom = some r ∧ (w.room r).adminClient = some me

/-- The room and the client that a PROMOTE makes its admin. -/
def promoted (command : Cmd) (me : ClientPtr) (w : World) : Option (RoomPtr × ClientPtr) :=
  match (w.client me).currentRoom, (findClient command.arg1 w.reg).2 with
  | some room, some target =>
    if (w.room room).adminClient = some me ∧ (w.client target).currentRoom = some room then
      some (room, target)
    else none
  | _, _ => none

/-- A command by which a client becomes the admin of a room. -/
inductive Grants (env : Env) (w : World) (e : Event) (c : ClientPtr) (r : RoomPtr) : Prop
  | created {conn : Conn} {command : Cmd} (h : Commands w e conn c command)
      (ht : command.type = .create ∨ command.type = .createPrivate) (new : r ∉ w.reg.roomList)
      (made : r ∈ (step w (env, e)).reg.roomList)
  | promoted {conn : Conn} {me : ClientPtr} {command : Cmd} (h : Commands w e conn me command)
      (ht : command.type = .promote) (admin : PassesAdminTest w me r)
      (target : (findClient command.arg1 w.reg).2 = some c)

/-- The role was granted in the run, and room and client are the same ones since then. -/
def Entitled (s : World) (inputs : List (Env × Event)) (c : ClientPtr) (r : RoomPtr) : Prop :=
  ∃ pre input post, inputs = pre ++ input :: post ∧
    Grants input.1 (run step s pre) input.2 c r ∧
    ∀ later, later <+: post → c ∈ (run step s (pre ++ input :: later)).reg.clientList ∧
      (r ∈ (run step s (pre ++ input :: later)).reg.roomList ∨
        ((run step s (pre ++ input :: later)).client c).currentRoom = some r)

/-- The admin of each live room is in the client list. -/
def AdminsLive (w : World) : Prop :=
  ∀ r ∈ w.reg.roomList, ∀ c, (w.room r).adminClient = some c → c ∈ w.reg.clientList

/-- A LOGOUT or LOGOUT_ALL of a client, or the end of its connection. -/
def LogsOut (w : World) (input : Env × Event) (c : ClientPtr) : Prop :=
  ∃ conn, w.conns.get conn.fd = some conn ∧ conn.me = some c ∧ EndsLogin conn.fd input

/-- A client that logs out is alone in each live room it administers. -/
def AdminsGoLast (w : World) (input : Env × Event) : Prop :=
  ∀ c, LogsOut w input c → ∀ r ∈ w.reg.roomList, (w.room r).adminClient = some c →
    (w.client c).currentRoom = some r ∧ ∀ c' ∈ (w.room r).members, c' = c

variable {env : Env} {w : World} {e : Event} {conn : Conn} {me c : ClientPtr} {command : Cmd}
  {r : RoomPtr}

theorem promoted_some {target : ClientPtr} (h : promoted command me w = some (r, target)) :
    PassesAdminTest w me r ∧ (findClient command.arg1 w.reg).2 = some target ∧
      target ∈ w.reg.clientList ∧ (w.client target).currentRoom = some r := by
  unfold promoted at h
  split at h
  · rename_i room t hroom hfind
    split_ifs at h with hif
    cases h
    refine ⟨⟨hroom, hif.1⟩, hfind, ?_, hif.2⟩
    cases h₁ : command.arg1 with
    | none => rw [h₁] at hfind; cases hfind
    | some n =>
      rw [h₁] at hfind
      exact (findClient_some hfind).1
  · cases h

theorem handlePromote_reg (conn : Conn) : (handlePromote command conn me w).reg =
    match promoted command me w with
    | some (room, target) => w.reg.setAdmin room target
    | none => w.reg := by
  unfold handlePromote promoted
  cases hroom : (w.client me).currentRoom with
  | none => rfl
  | some room =>
    by_cases hadmin : (w.room room).adminClient = some me
    · cases h₁ : command.arg1 with
      | none => simp [hadmin, findClient]
      | some n =>
        cases hfind : (findClient (some n) w.reg).2 with
        | none => simp [hadmin, hfind]
        | some target =>
          by_cases hin : (w.client target).currentRoom = some room
          · simp [hadmin, hfind, hin, World.notice]
          · simp [hadmin, hfind, hin]
    · cases (findClient command.arg1 w.reg).2 <;> simp [hadmin]

section Step

variable (env) (h : Commands w e conn me command) (ht : command.type = .promote)

include h ht

theorem step_promoted {target : ClientPtr} (hpr : promoted command me w = some (r, target)) :
    (step w (env, e)).reg = w.reg.setAdmin r target := by
  have hpr' : promoted command me { w with out := [], broadcasts := [] } = some (r, target) := hpr
  rw [step_eq_dispatch env h (by simp [ht]), dispatch, ht]
  simp only [handlePromote_reg, hpr']

theorem step_not_promoted (hpr : promoted command me w = none) :
    (step w (env, e)).reg = w.reg := by
  have hpr' : promoted command me { w with out := [], broadcasts := [] } = none := hpr
  rw [step_eq_dispatch env h (by simp [ht]), dispatch, ht]
  simp only [handlePromote_reg, hpr']

end Step

theorem administers_of_promote (env : Env) (h : Commands w e conn me command)
    (ht : command.type = .promote) (hadmin : (step w (env, e)).roster.Administers c r) :
    w.roster.Administers c r ∨ Grants env w e c r := by
  cases hpr : promoted command me w with
  | none =>
    rw [World.roster, step_not_promoted env h ht hpr] at hadmin
    exact .inl hadmin
  | some p =>
    obtain ⟨room, target⟩ := p
    have hreg := step_promoted env h ht hpr
    obtain ⟨hpass, hfind, -, -⟩ := promoted_some hpr
    rcases eq_or_ne room r with rfl | hne
    · obtain rfl : target = c := by
        simpa [World.roster, rosterOf, hreg] using hadmin.1
      exact .inr (.promoted h ht hpass hfind)
    · refine .inl ?_
      simpa [World.roster, rosterOf, hreg, hne, hne.symm, Administers] using hadmin

/-- An event makes a client an admin by a command that grants the role. -/
theorem grants_of_administers (hadmin : (step w (env, e)).roster.Administers c r) :
    w.roster.Administers c r ∨ Grants env w e c r := by
  rcases (step_leads w env e).administers (fun _ _ _ _ h _ => not_close_of_create h) hadmin with
    h | ⟨n, cap, hcreate, hnew, hr⟩ | hpromote
  · exact .inl h
  · obtain ⟨conn, command, hcmd, ht, -⟩ := creates_of_does hcreate
    exact .inr (.created hcmd ht hnew hr)
  · obtain ⟨conn, me, command, hcmd, ht⟩ := promotes_of_does hpromote
    exact administers_of_promote env hcmd ht hadmin

theorem mem_roomDeleteIfEmpty {reg : Registry} {room : RoomPtr} (h : reg.roomList.Nodup) :
    r ∈ (roomDeleteIfEmpty room reg).roomList ↔
      r ∈ reg.roomList ∧ ¬ (room = r ∧ (reg.rooms r).members = []) := by
  unfold roomDeleteIfEmpty
  split_ifs with hempty
  · simp only [deleteRoom]
    split_ifs with hroom
    · rw [h.mem_erase_iff]
      constructor
      · rintro ⟨hne, hr⟩
        exact ⟨hr, fun hgone => hne hgone.1.symm⟩
      · rintro ⟨hr, hgone⟩
        refine ⟨?_, hr⟩
        rintro rfl
        exact hgone ⟨rfl, hempty⟩
    · constructor
      · intro hr
        refine ⟨hr, ?_⟩
        rintro ⟨rfl, -⟩
        exact hroom hr
      · exact And.left
  · constructor
    · intro hr
      refine ⟨hr, ?_⟩
      rintro ⟨rfl, hgone⟩
      exact hempty hgone
    · exact And.left

theorem mem_leaveLastRoom (conn : Conn) (h : w.roster.Sound) :
    r ∈ (leaveLastRoom conn me w).reg.roomList ↔ r ∈ w.reg.roomList ∧
      ¬ ((w.client me).currentRoom = some r ∧ ∀ c ∈ (w.room r).members, c = me) := by
  have hnodup : w.reg.roomList.Nodup := h.seated.rooms_nodup
  unfold leaveLastRoom
  cases hroom : (w.client me).currentRoom with
  | none => simp
  | some last =>
    have hempty : r ∈ w.reg.roomList →
        ((w.room r).members.erase me = [] ↔ ∀ c ∈ (w.room r).members, c = me) := by
      intro hr
      have hm : (w.room r).members.Nodup := h.seated.members_nodup hr
      rw [List.eq_nil_iff_forall_not_mem]
      simp only [hm.mem_erase_iff, not_and']
      exact forall₂_congr fun c hc => not_not
    simp only [roomRemoveMember_snd]
    rw [mem_roomDeleteIfEmpty (by exact hnodup)]
    refine and_congr_right fun hr => not_congr ?_
    rw [Option.some.injEq, ← hempty hr]
    refine and_congr_right ?_
    rintro rfl
    simp [World.notice, World.room]

theorem leaveLastRoom_keeps (conn : Conn) (me : ClientPtr) (w : World) :
    (leaveLastRoom conn me w).roster.admin = w.roster.admin ∧
      (leaveLastRoom conn me w).roster.clients = w.roster.clients := by
  let P (a : ChatAct) : Prop := (∃ r, a = .leave me r) ∨ ∃ r, a = .close r
  have hleads : Leads P w.roster (leaveLastRoom conn me w).roster :=
    leaveLastRoom_leads (fun r => .inl ⟨r, rfl⟩) fun r => .inr ⟨r, rfl⟩
  refine hleads.invariant
    (I := fun u => u.admin = w.roster.admin ∧ u.clients = w.roster.clients) ?_ ⟨rfl, rfl⟩
  rintro u a hu ⟨⟨r, rfl⟩ | ⟨r, rfl⟩, -⟩
  · exact hu
  · exact hu

theorem leaveLastRoom_reg {w' : World} (h : w'.reg = w.reg) :
    (leaveLastRoom conn me w').reg = (leaveLastRoom conn me w).reg := by
  unfold leaveLastRoom World.client
  rw [h]
  cases (w.reg.clients me).currentRoom with
  | none => exact h
  | some room => rfl

theorem step_logsOut (h : LogsOut w (env, e) c) :
    ∃ conn, (step w (env, e)).reg = (deleteClient (some c) (leaveLastRoom conn c w).reg).2 := by
  obtain ⟨conn, hconn, hme, he⟩ := h
  refine ⟨conn, ?_⟩
  have hleave : (leaveLastRoom conn c { w with out := [], broadcasts := [] }).reg =
      (leaveLastRoom conn c w).reg :=
    leaveLastRoom_reg rfl
  rw [← hleave]
  rcases he with rfl | ⟨text, rfl, ht⟩
  · simp only [step, handleEvent, hconn, disconnectCleanup, hme]
  · have hcmd : Commands w (.line conn.fd text) conn c (parseLine text) :=
      ⟨text, rfl, hconn, hme, rfl⟩
    rcases ht with ht | ht
    · rw [step_eq_dispatch env hcmd (by simp [ht]), dispatch, ht]
      rfl
    · rw [step_eq_dispatch env hcmd (by simp [ht]), dispatch, ht]
      rfl

/-- A client that logs out is gone, and so are exactly the rooms it leaves empty. -/
theorem logsOut_rooms (hs : w.roster.Sound) (h : LogsOut w (env, e) c) :
    (r ∈ (step w (env, e)).reg.roomList ↔ r ∈ w.reg.roomList ∧
      ¬ ((w.client c).currentRoom = some r ∧ ∀ c' ∈ (w.room r).members, c' = c)) ∧
    ((step w (env, e)).room r).adminClient = (w.room r).adminClient ∧
    (step w (env, e)).reg.clientList = w.reg.clientList.erase c := by
  obtain ⟨conn, hreg⟩ := step_logsOut h
  obtain ⟨hadmin, hclients⟩ := leaveLastRoom_keeps conn c w
  rw [deleteClient_snd] at hreg
  refine ⟨?_, ?_, ?_⟩
  · rw [hreg]
    exact mem_leaveLastRoom conn hs
  · rw [World.room, hreg]
    exact congrFun hadmin r
  · rw [hreg]
    exact congrArg (List.erase · c) hclients

theorem adminsLive_of_not_logsOut (hs : w.roster.Sound) (h : AdminsLive w)
    (hout : ∀ c, ¬ LogsOut w (env, e) c) : AdminsLive (step w (env, e)) := by
  by_cases hlogout : ∀ fd c, ¬ Does env w e (.logout fd c)
  · exact (step_leads w env e).adminsListed hlogout hs h
  · simp only [not_forall, not_not] at hlogout
    obtain ⟨fd, c, hlogout⟩ := hlogout
    cases hlogout with
    | command hconn hp =>
      obtain rfl := w.conns.fd_eq _ _ hconn
      cases hp with
      | logout ht hme => exact absurd ⟨_, hconn, hme, .inr ⟨_, rfl, ht⟩⟩ (hout c)
    | dropLogout =>
      have hreg : (step w (env, .disconnect fd)).reg = w.reg := by
        simp only [step, handleEvent]
        cases hconn : w.conns.get fd with
        | none => rfl
        | some conn =>
          obtain rfl := w.conns.fd_eq _ _ hconn
          cases hme : conn.me with
          | none => simp [disconnectCleanup, hme]
          | some c' => exact absurd ⟨conn, hconn, hme, .inl rfl⟩ (hout c')
      unfold AdminsLive World.room
      rw [hreg]
      exact h

theorem adminsLive_step (hs : w.roster.Sound) (h : AdminsLive w) (hc : AdminsGoLast w (env, e)) :
    AdminsLive (step w (env, e)) := by
  by_cases hout : ∃ c, LogsOut w (env, e) c
  · obtain ⟨c, hout⟩ := hout
    intro r hr a ha
    obtain ⟨hrooms, hadmin, hclients⟩ := logsOut_rooms (r := r) hs hout
    obtain ⟨hr, hstays⟩ := hrooms.mp hr
    rw [hadmin] at ha
    have hne : a ≠ c := by
      rintro rfl
      exact hstays (hc a hout r hr ha)
    rw [hclients]
    exact (List.mem_erase_of_ne hne).mpr (h r hr a ha)
  · exact adminsLive_of_not_logsOut hs h (not_exists.mp hout)

theorem not_adminsLive_step (hs : w.roster.Sound) (hc : ¬ AdminsGoLast w (env, e)) :
    ¬ AdminsLive (step w (env, e)) := by
  simp only [AdminsGoLast, not_forall] at hc
  obtain ⟨c, hout, r, hr, ha, hstays⟩ := hc
  obtain ⟨hrooms, hadmin, hclients⟩ := logsOut_rooms (r := r) hs hout
  intro h
  have hmem := h r (hrooms.mpr ⟨hr, hstays⟩) c (hadmin.trans ha)
  rw [hclients] at hmem
  exact hs.linked.nodup.not_mem_erase hmem

/-- While the admins of rooms are live, whoever administers a room was granted the role. -/
theorem entitled_of_administers {s : World} {inputs : List (Env × Event)} (hs : s.roster.Start)
    (hlive : ∀ pre, pre <+: inputs → AdminsLive (run step s pre))
    (hc : c ∈ (run step s inputs).reg.clientList)
    (hadmin : (run step s inputs).roster.Administers c r) : Entitled s inputs c r := by
  obtain ⟨pre, input, post, hsplit, hgrant, hlater⟩ := run_origin_kept step
    (Q := fun w => c ∈ w.reg.clientList ∧ w.roster.Administers c r)
    (M := fun w input => Grants input.1 w input.2 c r)
    (fun h => List.eq_nil_iff_forall_not_mem.mp hs.clients c h.1) (by
      rintro pre ⟨env, e⟩ hpre ⟨-, hadmin'⟩
      refine (grants_of_administers hadmin').symm.imp_right fun h => ⟨?_, h⟩
      rcases h.2 with hr | ⟨hmem, -⟩
      · exact hlive pre ((List.prefix_append _ _).trans hpre) r hr c h.1
      · exact hmem) ⟨hc, hadmin⟩
  refine ⟨pre, input, post, hsplit, hgrant, fun later hpre => ?_⟩
  obtain ⟨hmem, -, hroom⟩ := hlater later hpre
  exact ⟨hmem, hroom.imp_right And.right⟩

/--
In every state a run reaches the admin of each live room is a client, and only
clients granted the role pass the admin test, exactly if nobody logs out who is
the admin of a room that lives on.
-/
theorem admin_authority_iff (cfg : Config) (db : Database) (start : ℤ)
    (inputs : List (Env × Event)) :
    (∀ pre, pre <+: inputs → AdminsLive (run step (World.init cfg db start) pre) ∧
      ∀ me ∈ (run step (World.init cfg db start) pre).reg.clientList, ∀ r,
        PassesAdminTest (run step (World.init cfg db start) pre) me r →
        Entitled (World.init cfg db start) pre me r) ↔
      Along step AdminsGoLast (World.init cfg db start) inputs := by
  have hstart := roster_init cfg db start
  have hlive : Along step AdminsGoLast (World.init cfg db start) inputs ↔
      ∀ pre, pre <+: inputs → AdminsLive (run step (World.init cfg db start) pre) := by
    refine along_iff_prefixes (J := fun w => w.roster.Sound) ?_ ?_ ?_ hstart.sound ?_
    · exact fun w input hs => (step_leads w input.1 input.2).sound hs
    · exact fun w input hs h hc => adminsLive_step hs h hc
    · exact fun w input hs _ hc => not_adminsLive_step hs hc
    · exact fun r hr => absurd hr (List.eq_nil_iff_forall_not_mem.mp hstart.rooms r)
  rw [hlive]
  constructor
  · exact fun h pre hpre => (h pre hpre).1
  · intro h pre hpre
    refine ⟨h pre hpre, fun me hme r htest => ?_⟩
    exact entitled_of_administers hstart (fun pre' hpre' => h pre' (hpre'.trans hpre)) hme
      ⟨htest.2, .inr ⟨hme, htest.1⟩⟩

/-- The admin logs out of a room with another member, and a stranger gets its address. -/
def reusedAdminRun : List (Env × Event) :=
  [(.calm 0 0 "t0".toList, .accept 4 false),
   (.calm 0 0 "t0".toList, .accept 5 false),
   (.calm 0 0 "t0".toList, .line 4 "REGISTER alice pw".toList),
   (.calm 0 1 "t1".toList, .line 5 "REGISTER bob pw".toList),
   (.calm 0 0 "t0".toList, .line 4 "CREATE lounge".toList),
   (.calm 0 0 "t0".toList, .line 5 "JOIN lounge".toList),
   (.calm 0 0 "t0".toList, .line 4 "LOGOUT".toList),
   (.calm 0 0 "t2".toList, .line 4 "REGISTER mallory pw".toList),
   (.calm 0 0 "t0".toList, .line 4 "JOIN lounge".toList)]

theorem reusedAdminRun_dangles :
    ¬ AdminsLive (run step (World.init ⟨4, 4, 4, 10⟩ .empty 0) (reusedAdminRun.take 7)) ∧
      PassesAdminTest (run step (World.init ⟨4, 4, 4, 10⟩ .empty 0) reusedAdminRun) 0 0 ∧
      ((run step (World.init ⟨4, 4, 4, 10⟩ .empty 0) reusedAdminRun).client 0).clientName =
        "mallory".toList := by
  refine ⟨fun h => ?_, ⟨by decide +kernel, by decide +kernel⟩, by decide +kernel⟩
  exact absurd (h 0 (by decide +kernel) 0 (by decide +kernel)) (by decide +kernel)

end ChatServer
