import ChatServer.Membership.Steps

/-! # The two sides of membership

A client's current room and the member lists agree in every state of a run as
long as no ACCEPT leads into a full room: ACCEPT assigns the current room
without reading the result of adding the member.
-/

namespace ChatServer

open Library World Roster

/-- Current room and member lists agree, and each member is listed once. -/
structure InPlace (w : World) : Prop where
  iff : ∀ c ∈ w.reg.clientList, ∀ r, (w.client c).currentRoom = some r ↔
    r ∈ w.reg.roomList ∧ c ∈ (w.room r).members
  once : ∀ c ∈ w.reg.clientList, ∀ r, (w.client c).currentRoom = some r →
    (w.room r).members.count c = 1

/-- An invited client's ACCEPT of a live room finds a free place, not counting its own. -/
def AcceptHasRoom (w : World) (input : Env × Event) : Prop :=
  ∀ fd text conn me n r, input.2 = .line fd text → w.conns.get fd = some conn →
    conn.me = some me → (parseLine text).type = .accept → (parseLine text).arg1 = some n →
    inviteFind input.1 n (w.client me).clientName w.db →
    (findRoom (some n) w.reg).2 = some r →
    ((w.room r).members.erase me).length < (w.room r).memberCapacity

variable {w : World} {env : Env} {e : Event} {me : ClientPtr} {r : RoomPtr} {n : Text}

theorem inPlace_iff_settled (h : w.roster.Sound) : InPlace w ↔ w.roster.Settled := by
  constructor
  · exact fun hp c hc r hr => (hp.iff c hc r).mp hr
  · refine fun hs => ⟨fun c hc r => ⟨hs c hc r, ?_⟩, fun c hc r hr => ?_⟩
    · rintro ⟨hr, hm⟩
      exact (h.seated.of_member hr hm).2
    · obtain ⟨hr, hm⟩ := hs c hc r hr
      exact List.count_eq_one_of_mem (h.seated.members_nodup hr) hm

theorem acceptLeave_members (h : w.roster.Sound) (hr : r ∈ w.reg.roomList) :
    ((acceptLeave me w.reg).rooms r).members = (w.room r).members.erase me := by
  rw [acceptLeave_room]
  simp only
  split_ifs with hloc
  · rfl
  · exact (List.erase_of_not_mem (h.seated.not_mem_of_location hr hloc)).symm

/-- A step that meets the condition keeps membership in place. -/
theorem inPlace_step (hs : w.roster.Sound) (h : InPlace w) (hc : AcceptHasRoom w (env, e)) :
    InPlace (step w (env, e)) := by
  have hlead := step_leads w env e
  refine (inPlace_iff_settled (hlead.sound hs)).mpr ?_
  refine hlead.settled ?_ hs ((inPlace_iff_settled hs).mp h)
  rintro c r n (_ | ⟨hconn, hp⟩)
  cases hp with
  | acceptFull ht hme h₁ hinv hfound hfull =>
    have hr := (findRoom_some (Prod.ext rfl hfound)).1
    rw [acceptLeave_members hs hr] at hfull
    exact absurd (hc _ _ _ _ _ _ rfl hconn hme ht h₁ hinv hfound) (not_lt.mpr hfull)

theorem handleAccept_full {command : Cmd} {conn : Conn} (hs : w.roster.Sound)
    (h₁ : command.arg1 = some n) (hinv : inviteFind env n (w.client me).clientName w.db)
    (hfound : (findRoom (some n) w.reg).2 = some r)
    (hfull : (w.room r).memberCapacity ≤ ((w.room r).members.erase me).length) :
    (handleAccept env command conn me w).reg =
      (acceptLeave me w.reg).setCurrentRoom me (some r) := by
  have hr := (findRoom_some (Prod.ext rfl hfound)).1
  have hadd : (roomAddMember (some r) (some me) (acceptLeave me w.reg)).2 =
      acceptLeave me w.reg := by
    rcases roomAddMember_cases (acceptLeave me w.reg) r me with ⟨he, -⟩ | ⟨he, -⟩ | ⟨-, -, hlt⟩
    · rw [he]
    · rw [he]
    · rw [acceptLeave_members hs hr, acceptLeave_memberCapacity] at hlt
      exact absurd hlt (not_lt.mpr hfull)
  simp only [handleAccept, h₁, hinv, Bool.not_true, Bool.false_eq_true, if_false, hfound, hadd]
  rfl

/-- A step that violates the condition breaks membership. -/
theorem not_inPlace_step (hs : w.roster.Sound) (hc : ¬ AcceptHasRoom w (env, e)) :
    ¬ InPlace (step w (env, e)) := by
  simp only [AcceptHasRoom, not_forall, not_lt] at hc
  obtain ⟨fd, text, conn, me, n, r, rfl, hconn, hme, ht, h₁, hinv, hfound, hfull⟩ := hc
  have hr := (findRoom_some (Prod.ext rfl hfound)).1
  have hreg : (step w (env, .line fd text)).reg =
      (acceptLeave me w.reg).setCurrentRoom me (some r) := by
    have hstep : step w (env, .line fd text) =
        handleAccept env (parseLine text) conn me { w with out := [], broadcasts := [] } := by
      simp [step, handleEvent, hconn, processLine, dispatch, hme, ht]
    rw [hstep]
    exact handleAccept_full (w := { w with out := [], broadcasts := [] }) hs h₁ hinv hfound hfull
  have hon : w.roster.Online me := ⟨fd, by simp [World.roster, rosterOf, hconn, hme]⟩
  have hmem : me ∈ w.reg.clientList := hs.linked.mem_of_online hon
  have hleave : (acceptLeave me w.reg).clientList = w.reg.clientList := by
    unfold acceptLeave
    split
    · rfl
    · rw [roomRemoveMember_snd]; rfl
  intro hp
  have hin := (hp.iff me (by rw [hreg]; exact hleave ▸ hmem) r).mp
    (by simp [client, hreg])
  have hout : me ∉ ((acceptLeave me w.reg).rooms r).members := by
    rw [acceptLeave_members hs hr]
    exact (hs.seated.members_nodup hr).not_mem_erase
  rw [room, hreg] at hin
  exact hout hin.2

/--
Membership is in place in every state a run reaches exactly if every ACCEPT in
the run finds a free place in its room.
-/
theorem inPlace_iff_acceptHasRoom (cfg : Config) (db : Database) (start : ℤ)
    (inputs : List (Env × Event)) :
    (∀ pre, pre <+: inputs → InPlace (run step (World.init cfg db start) pre)) ↔
      Along step AcceptHasRoom (World.init cfg db start) inputs := by
  have hstart := roster_init cfg db start
  refine (along_iff_prefixes (J := fun w => w.roster.Sound) ?_ ?_ ?_ hstart.sound ?_).symm
  · exact fun w input hs => (step_leads w input.1 input.2).sound hs
  · exact fun w input hs hp hc => inPlace_step hs hp hc
  · exact fun w input hs _ hc => not_inPlace_step hs hc
  · exact (inPlace_iff_settled hstart.sound).mpr hstart.settled

/-- A room for one member, whose owner invites a second user who accepts. -/
def fullRoomRun : List (Env × Event) :=
  [(.calm 0 0 "t0".toList, .accept 4 false),
   (.calm 0 0 "t0".toList, .accept 5 false),
   (.calm 0 0 "t0".toList, .line 4 "REGISTER alice pw".toList),
   (.calm 0 1 "t1".toList, .line 5 "REGISTER bob pw".toList),
   (.calm 0 0 "t0".toList, .line 4 "CREATE_PRIVATE lounge".toList),
   (.calm 0 0 "t0".toList, .line 4 "INVITE bob".toList),
   (.calm 0 0 "t0".toList, .line 5 "ACCEPT lounge".toList)]

theorem fullRoomRun_not_inPlace :
    ¬ InPlace (run step (World.init ⟨4, 4, 1, 10⟩ .empty 0) fullRoomRun) := by
  intro h
  have hin := (h.iff 1 (by decide +kernel) 0).mp (by decide +kernel)
  exact absurd hin.2 (by decide +kernel)

end ChatServer
