import ChatServer.Access.Disclosure
import ChatServer.Membership.Creation
import ChatServer.Store.Moderation

/-! # Private rooms

A private room is watched beside the server: its creator, the invitations made
and answered since its creation, and the messages stored in it. JOIN, ACCEPT
and HISTORY consult none of this, so the room stays invite-only as long as
only creators and invited users use these commands on it.
-/

namespace ChatServer

open Library World Roster

/--
A room made by CREATE_PRIVATE. `pending` are the users whose invitations since
its creation are not answered yet, `invited` all users invited since then, and
`messages` the ids of all messages that have been in it.
-/
structure PrivateRoom where
  room : RoomPtr
  name : Text
  creator : Text
  live : Bool
  pending : List Text
  invited : List Text
  messages : List ℤ
  deriving DecidableEq, Repr

/-- The server with the private rooms it has made. -/
structure Watch where
  world : World
  privates : List PrivateRoom

section Commands

variable (env : Env) (command : Cmd) (me : ClientPtr) (w : World)

/-- The room and the user of an INVITE that passes its checks and is saved. -/
def invitedBy : Option (RoomPtr × Text) :=
  match command.type, (w.client me).currentRoom, command.arg1 with
  | .invite, some room, some target =>
    if permissionCheck env (w.room room).roomName (w.client me).clientName .invite w.db ∧
        dbUserExists env target w.db ∧ env.sql .inviteCreate = .done then
      some (room, target)
    else none
  | _, _, _ => none

/-- The room name and the user of the invitation that an ACCEPT or a DECLINE deletes. -/
def answeredBy : Option (Text × Text) :=
  let name := (w.client me).clientName
  match command.type, command.arg1 with
  | .accept, some roomName =>
    if inviteFind env roomName name w.db ∧ (inviteAccept env roomName name w.db).1 then
      some (roomName, name)
    else none
  | .decline, some roomName =>
    if (inviteDecline env roomName name w.db).1 then some (roomName, name) else none
  | _, _ => none

/-- The private room that a CREATE_PRIVATE makes. -/
def createdBy : List PrivateRoom :=
  match command.type, createRoom env command.arg1 (some me) w.db w.reg with
  | .createPrivate, (.ok, some r, reg) =>
    [⟨r, (reg.rooms r).roomName, (w.client me).clientName, true, [], [],
      roomMessages (reg.rooms r)⟩]
  | _, _ => []

end Commands

namespace PrivateRoom

/-- The record after a client's command. -/
def hear (env : Env) (command : Cmd) (me : ClientPtr) (w : World) (p : PrivateRoom) : PrivateRoom :=
  let invitees := match invitedBy env command me w with
    | some (room, target) => if room = p.room then [target] else []
    | none => []
  let answered := match answeredBy env command me w with
    | some (roomName, user) => if roomName = p.name then [user] else []
    | none => []
  let stored := match command.type, messageOf env command me w with
    | .msg, some (room, id) => if room = p.room then [id] else []
    | _, _ => []
  { p with
    pending := p.pending.filter (· ∉ answered) ++ invitees
    invited := p.invited ++ invitees
    messages := p.messages ++ stored }

/-- The record when the server has reached a state. -/
def age (reg : Registry) (p : PrivateRoom) : PrivateRoom :=
  { p with live := p.live ∧ p.room ∈ reg.roomList }

/-- The creator of the room, or a user invited to it. -/
def Entitled (p : PrivateRoom) (user : Text) : Prop := user = p.creator ∨ user ∈ p.invited

/-- The room holds the message that a line carries. -/
def Holds (p : PrivateRoom) : Carried → Prop
  | .live r => p.live ∧ p.room = r
  | .stored n id => p.name = n ∧ id ∈ p.messages

end PrivateRoom

/-- One step of the server, recorded. -/
def watch (s : Watch) (input : Env × Event) : Watch where
  world := step s.world input
  privates :=
    let aged := fun p : PrivateRoom => p.age (step s.world input).reg
    match commandOf s.world input.2 with
    | none => s.privates.map aged
    | some (_, me, command) =>
      (s.privates.map fun p => aged (if p.live then p.hear input.1 command me s.world else p)) ++
        (createdBy input.1 command me s.world).map aged

theorem run_watch_world (s : Watch) (inputs : List (Env × Event)) :
    (run watch s inputs).world = run step s.world inputs := by
  induction inputs generalizing s with
  | nil => rfl
  | cons input inputs ih => exact ih (watch s input)

/-- An ACCEPT that consumes its user's invitation to a private room. -/
def AcceptsInvitation (s : Watch) (input : Env × Event) (c : ClientPtr) (p : PrivateRoom) : Prop :=
  ∃ conn command, Commands s.world input.2 conn c command ∧ command.type = .accept ∧
    command.arg1 = some p.name ∧ (s.world.client c).clientName ∈ p.pending ∧
    (inviteAccept input.1 p.name (s.world.client c).clientName s.world.db).1

/--
What a step keeps of private rooms: whoever becomes a member is the creator or
accepts an invitation, a new room has its creator as its only member, and the
messages of a room go to entitled users only.
-/
structure InviteOnly (s : Watch) (input : Env × Event) : Prop where
  members : ∀ p ∈ s.privates, p.live → p.room ∈ (step s.world input).reg.roomList →
    ∀ c ∈ ((step s.world input).room p.room).members,
      ((step s.world input).client c).clientName = p.creator ∨
        c ∈ (s.world.room p.room).members ∨ AcceptsInvitation s input c p
  created : ∀ conn me command, Commands s.world input.2 conn me command →
    ∀ p ∈ createdBy input.1 command me s.world,
    ∀ c ∈ ((step s.world input).room p.room).members,
      ((step s.world input).client c).clientName = p.creator
  messages : ∀ fd carried, (fd, carried) ∈ disclosed (step s.world input).out →
    ∀ p ∈ s.privates, p.Holds carried →
      ∃ conn c, s.world.conns.get fd = some conn ∧ conn.me = some c ∧
        p.Entitled (s.world.client c).clientName

/--
No JOIN takes anybody but the creator into a private room, no ACCEPT anybody
without a pending invitation that can be deleted, and JOIN, ACCEPT and HISTORY
show the messages of a private room to entitled users only.
-/
structure KeepsPrivate (s : Watch) (input : Env × Event) : Prop where
  join : ∀ conn me command p, Commands s.world input.2 conn me command → command.type = .join →
    p ∈ s.privates → p.live → roomJoined command me s.world = some p.room →
    (s.world.client me).clientName = p.creator ∨ me ∈ (s.world.room p.room).members
  accept : ∀ conn me command p, Commands s.world input.2 conn me command →
    command.type = .accept → p ∈ s.privates → p.live →
    roomAccepted input.1 command me s.world = some p.room →
    ((acceptLeave me s.world.reg).rooms p.room).members.length <
      (s.world.room p.room).memberCapacity →
    (s.world.client me).clientName = p.creator ∨ me ∈ (s.world.room p.room).members ∨
      ((s.world.client me).clientName ∈ p.pending ∧ input.1.sql .inviteAccept = .done)
  shown : ∀ conn me command, Commands s.world input.2 conn me command →
    ∀ carried ∈ shown input.1 command me s.world, ∀ p ∈ s.privates, p.Holds carried →
      p.Entitled (s.world.client me).clientName

variable {s : Watch} {w : World} {env : Env} {e : Event} {conn : Conn} {me c : ClientPtr}
  {command : Cmd} {p p' : PrivateRoom} {r : RoomPtr} {fd : Fd} {carried : Carried} {n u : Text}

/-- A member after a step entered the room in it, or was a member before it; it keeps its name. -/
theorem member_after (hs : w.roster.Sound) (hr : r ∈ (step w (env, e)).reg.roomList)
    (hc : c ∈ ((step w (env, e)).room r).members) :
    ((∃ n, Does env w e (.enter c r n)) ∨ (r ∈ w.reg.roomList ∧ c ∈ (w.room r).members)) ∧
      ((step w (env, e)).client c).clientName = (w.client c).clientName := by
  rcases (step_leads w env e).member hs hr hc with henter | ⟨hr', hc', hname, -⟩
  · obtain ⟨conn, command, hcmd, -⟩ := enter_cases henter
    exact ⟨.inl ⟨_, henter⟩, hcmd.clientName env c⟩
  · exact ⟨.inr ⟨hr', hc'⟩, hname⟩

theorem createdBy_some (h : p ∈ createdBy env command me w) :
    command.type = .createPrivate ∧ ∃ reg,
      createRoom env command.arg1 (some me) w.db w.reg = (.ok, some p.room, reg) ∧
      p.name = (reg.rooms p.room).roomName ∧ p.creator = (w.client me).clientName ∧
      p.pending = [] := by
  unfold createdBy at h
  split at h
  · rename_i ht hcreate
    obtain rfl := List.mem_singleton.mp h
    exact ⟨ht, _, hcreate, rfl, rfl, rfl⟩
  · cases h

theorem createdBy_creates (h : Commands w e conn me command)
    (hp : p ∈ createdBy env command me w) : Creates env w e me command p.name p.room := by
  obtain ⟨ht, reg, hcreate, hname, -⟩ := createdBy_some hp
  cases h₁ : command.arg1 with
  | none => rw [h₁] at hcreate; cases hcreate
  | some n =>
    rw [h₁] at hcreate
    obtain ⟨r, hr, -, -, hn, hreg⟩ := createRoom_ok hcreate
    obtain rfl := Option.some.inj hr
    obtain rfl : p.name = n := by
      rw [hname, hreg]
      simp [newRoom, strncpy_of_not_badLength hn]
    exact ⟨conn, reg, h, .inr ht, h₁, hcreate⟩

/-- The creator is the only one to enter a private room when it is made. -/
theorem createdBy_members (hs : w.roster.Sound) (h : Commands w e conn me command)
    (hp : p ∈ createdBy env command me w) (hc : c ∈ ((step w (env, e)).room p.room).members) :
    ((step w (env, e)).client c).clientName = p.creator := by
  have hcreate := createdBy_creates h hp
  have hr := hcreate.mem_roomList
  obtain ⟨-, -, -, -, hcreator, -⟩ := createdBy_some hp
  obtain ⟨⟨n, henter⟩ | ⟨hr', -⟩, hname⟩ := member_after hs hr hc
  · obtain ⟨conn', command', hcmd', -⟩ := enter_cases henter
    obtain ⟨-, rfl, -⟩ := h.unique hcmd'
    rw [hname, hcreator]
  · exact absurd hr' hcreate.new.1

theorem inviteAccept_iff (h : inviteFind env n u w.db) :
    (inviteAccept env n u w.db).1 = true ↔ env.sql .inviteAccept = .done := by
  have hrow : ∃ i ∈ w.db.invites.rows, i.roomName = n ∧ i.invitee = u := by
    simp only [inviteFind, ne_eq, decide_not, Bool.not_eq_true', decide_eq_false_iff_not] at h
    obtain ⟨i, hi⟩ := List.exists_mem_of_ne_nil _ h
    obtain ⟨hmem, hkey⟩ := List.mem_filter.mp (Sql.mem_of_mem_rows hi)
    exact ⟨i, hmem, by simpa using hkey⟩
  unfold inviteAccept
  cases env.sql .inviteAccept with
  | done => simpa [Table.changes, List.countP_pos_iff] using hrow
  | prepareFailed => simp
  | stepFailed k => simp

/-- Live private rooms are live under their names, and their members are entitled. -/
structure Watched (s : Watch) : Prop where
  sound : s.world.roster.Sound
  live : ∀ p ∈ s.privates, p.live →
    p.room ∈ s.world.reg.roomList ∧ (s.world.room p.room).roomName = p.name
  pending : ∀ p ∈ s.privates, ∀ u ∈ p.pending, u ∈ p.invited
  entitled : ∀ p ∈ s.privates, p.live → ∀ c ∈ (s.world.room p.room).members,
    p.Entitled (s.world.client c).clientName

theorem hear_grows (env : Env) (command : Cmd) (me : ClientPtr) (w : World) (p : PrivateRoom) :
    (∀ u ∈ p.invited, u ∈ (p.hear env command me w).invited) ∧
      ∀ u ∈ (p.hear env command me w).pending, u ∈ p.pending ∨
        u ∈ (p.hear env command me w).invited := by
  refine ⟨fun u hu => List.mem_append_left _ hu, fun u hu => ?_⟩
  rcases List.mem_append.mp hu with hu | hu
  · exact .inl (List.mem_filter.mp hu).1
  · exact .inr (List.mem_append_right _ hu)

theorem mem_watch (h : p' ∈ (watch s (env, e)).privates) :
    (∃ p ∈ s.privates, p'.room = p.room ∧ p'.name = p.name ∧ p'.creator = p.creator ∧
      (p'.live → p.live ∧ p.room ∈ (step s.world (env, e)).reg.roomList) ∧
      (∀ u ∈ p.invited, u ∈ p'.invited) ∧
      ∀ u ∈ p'.pending, u ∈ p.pending ∨ u ∈ p'.invited) ∨
    ∃ conn me command, Commands s.world e conn me command ∧
      ∃ p ∈ createdBy env command me s.world, p' = p.age (step s.world (env, e)).reg := by
  unfold watch at h
  simp only at h
  split at h
  · obtain ⟨p, hp, rfl⟩ := List.mem_map.mp h
    exact .inl ⟨p, hp, rfl, rfl, rfl, fun hl => by simpa [PrivateRoom.age] using hl,
      fun u hu => hu, fun u hu => .inl hu⟩
  · rename_i conn me command hcmd
    rcases List.mem_append.mp h with h | h
    · obtain ⟨p, hp, rfl⟩ := List.mem_map.mp h
      refine .inl ⟨p, hp, ?_⟩
      split_ifs with hlive
      · obtain ⟨hinv, hpend⟩ := hear_grows env command me s.world p
        exact ⟨rfl, rfl, rfl, fun hl => by simpa [PrivateRoom.age, PrivateRoom.hear] using hl,
          hinv, hpend⟩
      · exact ⟨rfl, rfl, rfl, fun hl => by simpa [PrivateRoom.age] using hl, fun u hu => hu,
          fun u hu => .inl hu⟩
    · obtain ⟨p, hp, rfl⟩ := List.mem_map.mp h
      exact .inr ⟨conn, me, command, commandOf_eq_some.mp hcmd, p, hp, rfl⟩

theorem disclosed_of_shown (h : Commands w e conn me command)
    (hc : carried ∈ shown env command me w) :
    (conn.fd, carried) ∈ disclosed (step w (env, e)).out := by
  rw [step_disclosed, commandOf_eq_some.mpr h]
  have ht : command.type ≠ .msg := by
    intro ht
    simp [shown, ht] at hc
  simp only [discloses]
  exact List.mem_map_of_mem hc

theorem inviteOnly_step (h : Watched s) (hk : KeepsPrivate s (env, e)) : InviteOnly s (env, e) := by
  constructor
  · intro p hp hlive hr c hc
    obtain ⟨⟨n, henter⟩ | ⟨-, hc'⟩, hname⟩ := member_after h.sound hr hc
    · rw [hname]
      obtain ⟨conn, command, hcmd, ⟨-, hnew⟩ | ⟨ht, hjoin⟩ | ⟨ht, -, -, haccept, hfree⟩⟩ :=
        enter_cases henter
      · exact absurd (h.live p hp hlive).1 hnew
      · rcases hk.join conn c command p hcmd ht hp hlive hjoin with hcreator | hmem
        · exact .inl hcreator
        · exact .inr (.inl hmem)
      · rcases hk.accept conn c command p hcmd ht hp hlive haccept hfree with
          hcreator | hmem | ⟨hpending, hsql⟩
        · exact .inl hcreator
        · exact .inr (.inl hmem)
        · obtain ⟨n, h₁, hinv, -, hn⟩ := roomAccepted_some haccept
          rw [(h.live p hp hlive).2] at hn
          subst hn
          exact .inr (.inr ⟨conn, command, hcmd, ht, h₁, hpending,
            (inviteAccept_iff hinv).mpr hsql⟩)
    · exact .inr (.inl hc')
  · intro conn me command hcmd p hp c hc
    exact createdBy_members h.sound hcmd hp hc
  · intro fd carried hout p hp hholds
    rw [step_disclosed] at hout
    split at hout
    · cases hout
    · rename_i conn me command hcmd
      have hcmd := commandOf_eq_some.mp hcmd
      rcases mem_discloses.mp hout with ⟨-, room, -, -, hfd, rfl⟩ | ⟨rfl, hshown⟩
      · obtain ⟨hlive, rfl⟩ := hholds
        obtain ⟨-, c, hc, rfl⟩ := mem_broadcastFds.mp hfd
        have hmem := (h.sound.seated.of_member (h.live p hp hlive).1 hc).1
        obtain ⟨conn', hconn', hme'⟩ := roster_conns_eq_some.mp (h.sound.linked.conn_of_mem hmem)
        exact ⟨conn', c, hconn', hme', h.entitled p hp hlive c hc⟩
      · have hshow := hk.shown conn me command hcmd carried hshown p hp hholds
        obtain ⟨text, -, hconn, hme, -⟩ := hcmd
        exact ⟨conn, me, hconn, hme, hshow⟩

theorem keepsPrivate_of_inviteOnly (h : Watched s) (hi : InviteOnly s (env, e)) :
    KeepsPrivate s (env, e) := by
  have hmoved : ∀ conn me command p, Commands s.world e conn me command → p ∈ s.privates →
      p.live → (step s.world (env, e)).reg = moveTo me p.room s.world.reg →
      ((acceptLeave me s.world.reg).rooms p.room).members.length <
        (s.world.room p.room).memberCapacity →
      (s.world.client me).clientName = p.creator ∨ me ∈ (s.world.room p.room).members ∨
        (command.type = .accept ∧ (s.world.client me).clientName ∈ p.pending ∧
          env.sql .inviteAccept = .done) := by
    intro conn me command p hcmd hp hlive hreg hfree
    have hr : p.room ∈ (step s.world (env, e)).reg.roomList := by
      rw [hreg, moveTo_roomList]
      exact (h.live p hp hlive).1
    have hc : me ∈ ((step s.world (env, e)).room p.room).members := by
      rw [World.room, hreg]
      exact mem_moveTo hfree
    rcases hi.members p hp hlive hr me hc with hcreator | hmem | ⟨conn', command', hacc⟩
    · rw [hcmd.clientName] at hcreator
      exact .inl hcreator
    · exact .inr (.inl hmem)
    · obtain ⟨hcmd', ht', -, hpending, haccept⟩ := hacc
      obtain ⟨-, -, rfl⟩ := hcmd.unique hcmd'
      refine .inr (.inr ⟨ht', hpending, ?_⟩)
      unfold inviteAccept at haccept
      split at haccept
      · assumption
      · cases haccept
  constructor
  · intro conn me command p hcmd ht hp hlive hjoin
    rcases hmoved conn me command p hcmd hp hlive (step_joined env hcmd ht hjoin)
      (roomJoined_some hjoin).2 with hcreator | hmem | ⟨ht', -⟩
    · exact .inl hcreator
    · exact .inr hmem
    · rw [ht] at ht'
      cases ht'
  · intro conn me command p hcmd ht hp hlive haccept hfree
    rcases hmoved conn me command p hcmd hp hlive (step_accepted hcmd ht haccept) hfree with
      hcreator | hmem | ⟨-, hpending⟩
    · exact .inl hcreator
    · exact .inr (.inl hmem)
    · exact .inr (.inr hpending)
  · intro conn me command hcmd carried hshown p hp hholds
    obtain ⟨conn', c, hconn', hme', hentitled⟩ :=
      hi.messages conn.fd carried (disclosed_of_shown hcmd hshown) p hp hholds
    obtain ⟨text, -, hconn, hme, -⟩ := hcmd
    rw [hconn] at hconn'
    obtain rfl := Option.some.inj hconn'
    rw [hme] at hme'
    obtain rfl := Option.some.inj hme'
    exact hentitled

theorem watched_step (h : Watched s) (hk : KeepsPrivate s (env, e)) :
    Watched (watch s (env, e)) := by
  have hi := inviteOnly_step h hk
  constructor
  · exact (step_leads s.world env e).sound h.sound
  · intro p' hp' hlive'
    rcases mem_watch hp' with
      ⟨p, hp, hroom, hname, -, hlive, -⟩ | ⟨conn, me, command, hcmd, p, hp, rfl⟩
    · obtain ⟨hl, hr⟩ := hlive hlive'
      obtain ⟨hr₀, hn⟩ := h.live p hp hl
      rw [hroom, hname]
      exact ⟨hr, (step_roomName hr₀).trans hn⟩
    · have hcreate := createdBy_creates hcmd hp
      exact ⟨hcreate.mem_roomList, hcreate.roomName⟩
  · intro p' hp' u hu
    rcases mem_watch hp' with
      ⟨p, hp, -, -, -, -, hinv, hpend⟩ | ⟨conn, me, command, hcmd, p, hp, rfl⟩
    · rcases hpend u hu with hu | hu
      · exact hinv u (h.pending p hp u hu)
      · exact hu
    · obtain ⟨-, -, -, -, -, hpending⟩ := createdBy_some hp
      have hu : u ∈ p.pending := hu
      rw [hpending] at hu
      cases hu
  · intro p' hp' hlive' c hc
    rcases mem_watch hp' with ⟨p, hp, hroom, -, hcreator, hlive, hinv, -⟩ |
      ⟨conn, me, command, hcmd, p, hp, rfl⟩
    · obtain ⟨hl, hr⟩ := hlive hlive'
      rw [hroom] at hc
      have hname := (member_after h.sound hr hc).2
      have hgrow : ∀ {u}, p.Entitled u → p'.Entitled u := by
        rintro u (hu | hu)
        · exact .inl (hu.trans hcreator.symm)
        · exact .inr (hinv u hu)
      refine hgrow ?_
      rcases hi.members p hp hl hr c hc with hcre | hmem | ⟨-, -, -, -, -, hpending, -⟩
      · exact .inl hcre
      · exact hname.symm ▸ h.entitled p hp hl c hmem
      · exact .inr (hname.symm ▸ h.pending p hp _ hpending)
    · exact .inl (createdBy_members (p := p) h.sound hcmd hp hc)

/--
Every step of a run keeps private rooms invite-only exactly if JOIN, ACCEPT and
HISTORY are used on them by creators and invited users only.
-/
theorem inviteOnly_iff_keepsPrivate (cfg : Config) (db : Database) (start : ℤ)
    (inputs : List (Env × Event)) :
    Along watch InviteOnly ⟨World.init cfg db start, []⟩ inputs ↔
      Along watch KeepsPrivate ⟨World.init cfg db start, []⟩ inputs := by
  have hstart : Watched ⟨World.init cfg db start, []⟩ :=
    ⟨(roster_init cfg db start).sound, by simp, by simp, by simp⟩
  refine (along_congr (I := Watched) ?_ ?_ hstart).symm
  · exact fun s input h hk => watched_step h hk
  · exact fun s input h => ⟨inviteOnly_step h, keepsPrivate_of_inviteOnly h⟩

/-- A user who was never invited joins a private room. -/
def uninvitedRun : List (Env × Event) :=
  [(.calm 0 0 "t0".toList, .accept 4 false),
   (.calm 0 0 "t0".toList, .accept 5 false),
   (.calm 0 0 "t0".toList, .line 4 "REGISTER alice pw".toList),
   (.calm 0 1 "t1".toList, .line 5 "REGISTER bob pw".toList),
   (.calm 0 0 "t0".toList, .line 4 "CREATE_PRIVATE lounge".toList),
   (.calm 0 0 "t0".toList, .line 5 "JOIN lounge".toList)]

theorem uninvitedRun_not_inviteOnly :
    ¬ Along watch InviteOnly ⟨World.init ⟨4, 4, 4, 10⟩ .empty 0, []⟩ uninvitedRun := by
  rintro ⟨-, -, -, -, -, hjoin, -⟩
  rcases hjoin.members ⟨0, "lounge".toList, "alice".toList, true, [], [], []⟩ (by decide +kernel)
    rfl (by decide +kernel) 1 (by decide +kernel) with hname | hmem | ⟨_, _, hcmd, ht, -⟩
  · exact absurd hname (by decide +kernel)
  · exact absurd hmem (by decide +kernel)
  · obtain ⟨_, he, -, -, rfl⟩ := hcmd
    obtain ⟨-, rfl⟩ := Event.line.inj he
    exact absurd ht (by decide +kernel)

end ChatServer
