import ChatServer.Access.Bans
import ChatServer.Authority.Admin
import ChatServer.Membership.Creation
import ChatServer.Membership.Invariant

/-! # Rooms without members

A room is registered to be empty only by a command that moves the last member
out without the check LEAVE makes, or that creates a room its sender cannot
enter.
-/

namespace ChatServer

open Library World Roster

namespace Roster

variable {R C N F : Type*} {P : Act R C N F → Prop} {s t : Roster R C N F}

/-- Every room has a member. -/
def Occupied (s : Roster R C N F) : Prop := ∀ r ∈ s.rooms, s.members r ≠ []

/-- No room has more members than it may. -/
def Within (s : Roster R C N F) : Prop := ∀ r ∈ s.rooms, (s.members r).length ≤ s.capacity r

variable [DecidableEq R] [DecidableEq C] [DecidableEq F]

theorem Within.apply {a : Act R C N F} (h : s.Within) (ha : s.Enabled a) : (s.apply a).Within := by
  cases a with
  | create r c n cap =>
    intro r' hr'
    rcases List.mem_append.mp hr' with hr' | hr'
    · have hne : r' ≠ r := fun he => ha.1 (he ▸ hr')
      simpa [Roster.apply, hne] using h r' hr'
    · obtain rfl := List.mem_singleton.mp hr'
      simp [Roster.apply]
  | close r => exact fun r' hr' => h r' (List.mem_of_mem_erase hr')
  | enter c r n =>
    intro r' hr'
    rcases eq_or_ne r' r with rfl | hne
    · simpa [Roster.apply] using Nat.succ_le_of_lt ha.2.2.2.2
    · simpa [Roster.apply, hne] using h r' hr'
  | leave c r =>
    intro r' hr'
    rcases eq_or_ne r' r with rfl | hne
    · have hlen : (((s.members r').erase c).length) ≤ s.capacity r' :=
        (List.erase_sublist.length_le).trans (h r' hr')
      simpa [Roster.apply] using hlen
    · simpa [Roster.apply, hne] using h r' hr'
  | _ => exact h

theorem Leads.within (hp : Leads P s t) (h : s.Within) : t.Within :=
  hp.invariant (fun _ _ hs ha => hs.apply ha.2) h

theorem Leads.occupied (hp : Leads P s t) (hleave : ∀ c r, ¬ P (.leave c r))
    (hcreate : ∀ r c n cap, ¬ P (.create r c n cap)) (h : s.Occupied) : t.Occupied := by
  refine hp.invariant (I := Occupied) ?_ h
  rintro u a hu ⟨hPa, -⟩
  cases a with
  | create r c n cap => exact absurd hPa (hcreate r c n cap)
  | leave c r => exact absurd hPa (hleave c r)
  | close r => exact fun r' hr' => hu r' (List.mem_of_mem_erase hr')
  | enter c r n =>
    intro r' hr'
    rcases eq_or_ne r' r with rfl | hne
    · simp [Roster.apply]
    · simpa [Roster.apply, hne] using hu r' hr'
  | _ => exact hu

end Roster

/-- Every live room has a member. -/
def Registry.Occupied (reg : Registry) : Prop := ∀ r ∈ reg.roomList, (reg.rooms r).members ≠ []

/-- The commands that leave a live room without members. -/
inductive Strands (env : Env) (w : World) (e : Event) : Prop
  | create {me : ClientPtr} {command : Cmd} {n : Text} {r : RoomPtr}
      (made : Creates env w e me command n r)
      (out : ¬ ((w.client me).currentRoom = none ∧ 0 < w.reg.maxMembers))
  | join {conn : Conn} {me : ClientPtr} {command : Cmd} {n : Text} {old : RoomPtr}
      (h : Commands w e conn me command) (ht : command.type = .join)
      (h₁ : command.arg1 = some n) (live : old ∈ w.reg.roomList)
      (alone : (w.room old).members = [me]) (elsewhere : (findRoom (some n) w.reg).2 ≠ some old)
  | accept {conn : Conn} {me : ClientPtr} {command : Cmd} {r old : RoomPtr}
      (h : Commands w e conn me command) (ht : command.type = .accept)
      (accepted : roomAccepted env command me w = some r) (live : old ∈ w.reg.roomList)
      (alone : (w.room old).members = [me]) (elsewhere : r ≠ old)
  | ban {conn : Conn} {me c : ClientPtr} {command : Cmd} {room : RoomPtr} {target : Text}
      (h : Commands w e conn me command) (ht : command.type = .ban)
      (h₁ : command.arg1 = some target) (cur : (w.client me).currentRoom = some room)
      (perm : permissionCheck env (w.room room).roomName (w.client me).clientName .ban w.db)
      (sql : env.sql .banAdd = .done) (live : room ∈ w.reg.roomList)
      (found : (findClient (some target) w.reg).2 = some c)
      (alone : (w.room room).members = [c])

variable {env : Env} {w : World} {e : Event} {conn : Conn} {me c : ClientPtr} {command : Cmd}
  {r r' room old : RoomPtr} {n : Text} {reg : Registry}

/-- Out of a room, which is dropped if that leaves it empty. -/
def vacate (c : ClientPtr) (room : RoomPtr) (reg : Registry) : Registry :=
  roomDeleteIfEmpty room ((roomRemoveMember (some room) (some c) reg).2.setCurrentRoom c none)

@[simp] theorem roomDeleteIfEmpty_rooms : (roomDeleteIfEmpty room reg).rooms = reg.rooms := by
  simp only [roomDeleteIfEmpty, deleteRoom]
  split_ifs <;> rfl

theorem Registry.Occupied.vacate (h : reg.Occupied) (hnodup : reg.roomList.Nodup) :
    (vacate c room reg).Occupied := by
  intro r hr
  rw [ChatServer.vacate, mem_roomDeleteIfEmpty (by rw [roomRemoveMember_snd]; exact hnodup)] at hr
  obtain ⟨hmem, hempty⟩ := hr
  rw [roomRemoveMember_snd] at hmem
  rw [ChatServer.vacate, roomDeleteIfEmpty_rooms]
  rcases eq_or_ne r room with rfl | hne
  · exact fun hnil => hempty ⟨rfl, hnil⟩
  · rw [roomRemoveMember_snd]
    simpa [hne] using h r hmem

theorem leaveLastRoom_cases (conn : Conn) (me : ClientPtr) (w : World) :
    (leaveLastRoom conn me w).reg = w.reg ∨
      ∃ room, (leaveLastRoom conn me w).reg = vacate me room w.reg := by
  unfold leaveLastRoom
  split
  · exact .inl rfl
  · exact .inr ⟨_, rfl⟩

theorem handleLeave_reg_cases (conn : Conn) (me : ClientPtr) (w : World) :
    (handleLeave conn me w).reg = w.reg ∨
      ∃ room, (handleLeave conn me w).reg = vacate me room w.reg := by
  unfold handleLeave
  split
  · exact .inl rfl
  · rename_i room hcur
    by_cases hmem : me ∈ (w.reg.rooms room).members
    · refine .inr ⟨room, ?_⟩
      simp only [roomRemoveMember, if_pos hmem, vacate]
      rfl
    · refine .inl ?_
      simp only [roomRemoveMember, if_neg hmem]
      rfl

theorem handleKick_reg_cases (conn : Conn) (me : ClientPtr) (w : World) :
    (handleKick command conn me w).reg = w.reg ∨
      ∃ target room, (handleKick command conn me w).reg = vacate target room w.reg := by
  unfold handleKick
  cases hcur : (w.client me).currentRoom with
  | none => exact .inl rfl
  | some room =>
    simp only
    split_ifs
    · exact .inl rfl
    · split
      · exact .inl rfl
      · split_ifs
        · exact .inl rfl
        · split
          · exact .inl rfl
          · rename_i target _
            split_ifs
            · exact .inl rfl
            · by_cases hmem : target ∈ (w.reg.rooms room).members
              · refine .inr ⟨target, room, ?_⟩
                simp only [roomRemoveMember, if_pos hmem, vacate]
                rfl
              · refine .inl ?_
                simp only [roomRemoveMember, if_neg hmem]
                rfl

theorem alone_of_acceptLeave (h : reg.Occupied) (hr : r ∈ reg.roomList)
    (hnil : ((acceptLeave me reg).rooms r).members = []) : (reg.rooms r).members = [me] := by
  rw [acceptLeave_room] at hnil
  simp only at hnil
  split_ifs at hnil
  · exact (List.erase_eq_nil_iff.mp hnil).resolve_left (h r hr)
  · exact absurd hnil (h r hr)

theorem acceptLeave_of_alone (hs : w.roster.Sound) (hr : r ∈ w.reg.roomList)
    (alone : (w.room r).members = [me]) : ((acceptLeave me w.reg).rooms r).members = [] := by
  rw [acceptLeave_members hs hr, alone]
  simp

theorem moveTo_members_of_ne (hne : r' ≠ r) :
    ((moveTo me r reg).rooms r').members = ((acceptLeave me reg).rooms r').members := by
  unfold moveTo
  rcases roomAddMember_cases (acceptLeave me reg) r me with ⟨h, -⟩ | ⟨h, -⟩ | ⟨h, -⟩
  · simp [h]
  · simp [h]
  · simp [h, hne]

theorem moveTo_members_self (hcap : 0 < (reg.rooms r).memberCapacity) :
    ((moveTo me r reg).rooms r).members ≠ [] := by
  unfold moveTo
  rcases roomAddMember_cases (acceptLeave me reg) r me with ⟨-, hin⟩ | ⟨h, -, hfull⟩ | ⟨h, -⟩
  · exact absurd acceptLeave_location hin
  · rw [acceptLeave_memberCapacity] at hfull
    have hpos : 0 < ((acceptLeave me reg).rooms r).members.length := lt_of_lt_of_le hcap hfull
    simpa [h] using List.ne_nil_of_length_pos hpos
  · simp [h]

theorem Registry.Occupied.moveTo (h : reg.Occupied) (hcap : 0 < (reg.rooms r).memberCapacity)
    (hold : ∀ old ∈ reg.roomList, (reg.rooms old).members = [me] → r = old) :
    (moveTo me r reg).Occupied := by
  intro r' hr'
  rw [moveTo_roomList] at hr'
  rcases eq_or_ne r' r with rfl | hne
  · exact moveTo_members_self hcap
  · rw [moveTo_members_of_ne hne]
    exact fun hnil => hne (hold r' hr' (alone_of_acceptLeave h hr' hnil)).symm

theorem handleJoin_reg_of_not_joined (h₁ : command.arg1 = some n)
    (h : roomJoined command me w = none) :
    (handleJoin command conn me w).reg = (joinLeave conn me w).reg := by
  unfold handleJoin
  simp only [h₁]
  split
  · rename_i room hfind
    split
    · rename_i hadd
      obtain ⟨hseated, hfound, hfree⟩ := joinLeave_add hfind hadd
      simp only [roomJoined, h₁, hfound] at h
      rw [if_pos ⟨hseated, hfree⟩] at h
      cases h
    · rename_i hadd
      exact roomAddMember_err (by assumption) hadd
  · rfl

theorem step_not_accepted (h : Commands w e conn me command) (ht : command.type = .accept)
    (haccept : roomAccepted env command me w = none) : (step w (env, e)).reg = w.reg := by
  unfold roomAccepted at haccept
  rw [step_eq_dispatch env h (by simp [ht]), dispatch, ht]
  unfold handleAccept
  cases h₁ : command.arg1 with
  | none => rfl
  | some n =>
    simp only [h₁] at haccept
    split_ifs at haccept with hinv
    · have hinv : inviteFind env n (World.client { w with out := [], broadcasts := [] }
          me).clientName w.db := hinv
      simp [hinv, haccept]
    · have hinv : ¬ inviteFind env n (World.client { w with out := [], broadcasts := [] }
          me).clientName w.db := hinv
      simp [hinv]

theorem capacity_pos (hw : w.roster.Within) (h : w.reg.Occupied) (hr : r ∈ w.reg.roomList) :
    0 < (w.room r).memberCapacity :=
  lt_of_lt_of_le (List.length_pos_of_ne_nil (h r hr)) (hw r hr)

theorem leave_cases (h : Does env w e (.leave c r)) : LogsOut w (env, e) c ∨
    ∃ conn me command, Commands w e conn me command ∧
      command.type ∈ [CmdType.join, .accept, .ban, .leave, .kick] := by
  cases h with
  | command hconn hp =>
    obtain rfl := w.conns.fd_eq _ _ hconn
    cases hp with
    | leave ht hme =>
      simp only [List.mem_cons, List.not_mem_nil, or_false] at ht
      rcases ht with ht | ht | ht | ht | ht
      · exact .inr ⟨_, _, _, ⟨_, rfl, hconn, hme, rfl⟩, by simp [ht]⟩
      · exact .inr ⟨_, _, _, ⟨_, rfl, hconn, hme, rfl⟩, by simp [ht]⟩
      · exact .inr ⟨_, _, _, ⟨_, rfl, hconn, hme, rfl⟩, by simp [ht]⟩
      · exact .inl ⟨_, hconn, hme, .inr ⟨_, rfl, .inl ht⟩⟩
      · exact .inl ⟨_, hconn, hme, .inr ⟨_, rfl, .inr ht⟩⟩
    | kick ht hme _ _ _ => exact .inr ⟨_, _, _, ⟨_, rfl, hconn, hme, rfl⟩, by simp [ht]⟩
    | ban ht hme _ _ => exact .inr ⟨_, _, _, ⟨_, rfl, hconn, hme, rfl⟩, by simp [ht]⟩
  | dropLeave hconn hme =>
    obtain rfl := w.conns.fd_eq _ _ hconn
    exact .inl ⟨_, hconn, hme, .inl rfl⟩

theorem joinLeave_of_alone (hs : w.roster.Sound) (conn : Conn) (hr : old ∈ w.reg.roomList)
    (alone : (w.room old).members = [me]) :
    (joinLeave conn me w).reg = acceptLeave me w.reg := by
  have hmem : me ∈ (w.room old).members := by simp [alone]
  have hcur : (w.client me).currentRoom = some old := (hs.seated.of_member hr hmem).2
  rw [joinLeave_of_seated]
  intro old' hold'
  rw [hcur] at hold'
  obtain rfl := Option.some.inj hold'
  exact hmem

section Step

variable (env)

theorem occupied_join (hw : w.roster.Within) (h : w.reg.Occupied)
    (hcmd : Commands w e conn me command) (ht : command.type = .join)
    (hc : ¬ Strands env w e) : (step w (env, e)).reg.Occupied := by
  cases hjoin : roomJoined command me w with
  | some r =>
    rw [step_joined env hcmd ht hjoin]
    obtain ⟨hr, -⟩ := roomJoined_some hjoin
    refine h.moveTo (capacity_pos hw h hr) fun old hold alone => ?_
    by_contra hne
    unfold roomJoined at hjoin
    split at hjoin
    · rename_i hfind
      obtain ⟨n, h₁⟩ := exists_name_of_findRoom hfind
      split_ifs at hjoin
      obtain rfl := Option.some.inj hjoin
      rw [h₁] at hfind
      exact hc (.join hcmd ht h₁ hold alone (by simpa [hfind] using hne))
    · cases hjoin
  | none =>
    have hstep : (step w (env, e)).reg = (handleJoin command conn me
        { w with out := [], broadcasts := [] }).reg := by
      rw [step_eq_dispatch env hcmd (by simp [ht]), dispatch, ht]
    cases h₁ : command.arg1 with
    | none =>
      rw [hstep]
      simp only [handleJoin, h₁]
      exact h
    | some n =>
      rw [hstep, handleJoin_reg_of_not_joined (w :=
        { w with out := [], broadcasts := [] }) h₁ hjoin]
      by_cases hout : ∀ old, (w.client me).currentRoom = some old → me ∈ (w.room old).members
      · rw [joinLeave_of_seated conn (w := { w with out := [], broadcasts := [] }) hout]
        intro old hold hnil
        have hold : old ∈ w.reg.roomList := by simpa using hold
        have alone : (w.room old).members = [me] := alone_of_acceptLeave h hold hnil
        refine hc (.join hcmd ht h₁ hold alone fun hfind => ?_)
        -- back to the room just left, which has a place
        obtain ⟨err, hfound⟩ : ∃ err, findRoom (some n) w.reg = (err, some old) :=
          ⟨_, Prod.ext rfl hfind⟩
        rcases findRoom_cases (some n) w.reg with ⟨r, hok⟩ | hok | hok
        · rw [hok] at hfind
          obtain rfl := Option.some.inj hfind
          simp only [roomJoined, h₁, hok] at hjoin
          have hfree : ((acceptLeave me w.reg).rooms r).members.length <
              (w.room r).memberCapacity :=
            lt_of_eq_of_lt (List.length_eq_zero_iff.mpr hnil) (capacity_pos hw h hold)
          rw [if_pos ⟨hout, hfree⟩] at hjoin
          cases hjoin
        · simp [hok] at hfind
        · simp [hok] at hfind
      · rw [(joinLeave_of_not_seated conn (w := { w with out := [], broadcasts := [] }) hout).1]
        exact h

theorem occupied_accept (hw : w.roster.Within) (h : w.reg.Occupied)
    (hcmd : Commands w e conn me command) (ht : command.type = .accept)
    (hc : ¬ Strands env w e) : (step w (env, e)).reg.Occupied := by
  cases haccept : roomAccepted env command me w with
  | some r =>
    rw [step_accepted hcmd ht haccept]
    obtain ⟨n, -, -, hr, -⟩ := roomAccepted_some haccept
    refine h.moveTo (capacity_pos hw h hr) fun old hold alone => ?_
    by_contra hne
    exact hc (.accept hcmd ht haccept hold alone hne)
  | none =>
    rw [step_not_accepted hcmd ht haccept]
    exact h

theorem occupied_ban (hs : w.roster.Sound) (h : w.reg.Occupied)
    (hcmd : Commands w e conn me command) (ht : command.type = .ban) (hc : ¬ Strands env w e) :
    (step w (env, e)).reg.Occupied := by
  rcases step_ban_cases env hcmd ht with ⟨-, hreg⟩ | ⟨room, target, h₁, hcur, hperm, hsql⟩
  · rw [hreg]
    exact h
  · obtain ⟨-, hlist, -, -, hmembers⟩ := step_ban hs hcmd ht h₁ hcur hperm hsql
    intro r hr hnil
    rw [hlist] at hr
    have hout : ∀ c ∈ (w.room r).members,
        r = room ∧ (findClient (some target) w.reg).2 = some c := by
      intro c hmem
      by_contra hstay
      have hin := (hmembers r hr c).mpr ⟨hmem, hstay⟩
      rw [World.room, hnil] at hin
      cases hin
    obtain ⟨c, hmem⟩ := List.exists_mem_of_ne_nil _ (h r hr)
    obtain ⟨rfl, hfound⟩ := hout c hmem
    have hall : ∀ c' ∈ (w.room r).members, c' = c := fun c' hc' =>
      (Option.some.inj (hfound.symm.trans (hout c' hc').2)).symm
    have hnodup : (w.room r).members.Nodup := hs.seated.members_nodup hr
    exact hc (.ban hcmd ht h₁ hcur hperm hsql hr hfound
      (List.perm_singleton.mp ((List.perm_ext_iff_of_nodup hnodup (List.nodup_singleton c)).mpr
        fun c' => ⟨fun hc' => by simp [hall c' hc'], fun hc' => by simp at hc'; exact hc' ▸ hmem⟩)))

theorem occupied_create (h : w.reg.Occupied) (hcmd : Commands w e conn me command)
    (ht : command.type.Creates) (hc : ¬ Strands env w e) :
    (step w (env, e)).reg.Occupied := by
  by_cases hcreate : ∃ n r, Creates env w e me command n r
  · obtain ⟨n, r, hmade⟩ := hcreate
    have hin : (w.client me).currentRoom = none ∧ 0 < w.reg.maxMembers := by
      by_contra hout
      exact hc (.create hmade hout)
    intro r' hr'
    rcases eq_or_ne r' r with rfl | hne
    · have hmembers := hmade.members
      rw [if_pos hin] at hmembers
      exact hmembers ▸ List.cons_ne_nil _ _
    · rw [hmade.reg_eq, createdIn_roomList] at hr'
      have hr' : r' ∈ w.reg.roomList :=
        (List.mem_append.mp hr').resolve_right fun h => hne (List.mem_singleton.mp h)
      rw [hmade.reg_eq, createdIn]
      split_ifs
      · simpa [hne] using h r' hr'
      · simpa [hne] using h r' hr'
  · rw [step_not_created env hcmd ht]
    · exact h
    · intro hok
      cases h₁ : command.arg1 with
      | none => rw [h₁] at hok; cases hok
      | some n =>
        rcases hmade : createRoom env (some n) (some me) w.db w.reg with ⟨err, room, reg⟩
        rw [h₁, hmade] at hok
        obtain rfl : err = .ok := hok
        obtain ⟨r, rfl, -⟩ := createRoom_ok hmade
        exact hcreate ⟨n, r, conn, reg, hcmd, ht, h₁, hmade⟩

/-- An event that takes a client out of a room drops the room, or moves the client by itself. -/
theorem occupied_leave (hs : w.roster.Sound) (hw : w.roster.Within) (h : w.reg.Occupied)
    (hdoes : Does env w e (.leave c r)) (hc : ¬ Strands env w e) :
    (step w (env, e)).reg.Occupied := by
  have hvacated : ∀ {reg : Registry},
      (reg = w.reg ∨ ∃ c room, reg = vacate c room w.reg) → reg.Occupied := by
    rintro reg (rfl | ⟨c, room, rfl⟩)
    · exact h
    · exact h.vacate hs.seated.rooms_nodup
  rcases leave_cases hdoes with hout | ⟨conn, me, command, hcmd, ht⟩
  · have hlogout : LogsOut w (env, e) c := hout
    obtain ⟨conn, hreg⟩ := step_logsOut hlogout
    have hleft : (leaveLastRoom conn c w).reg.Occupied :=
      hvacated ((leaveLastRoom_cases conn c w).imp_right fun h => ⟨c, h⟩)
    rw [hreg, deleteClient_snd]
    exact hleft
  · have hdispatch : command.type ≠ .invalid := by rintro hinv; simp [hinv] at ht
    simp only [List.mem_cons, List.not_mem_nil, or_false] at ht
    rcases ht with ht | ht | ht | ht | ht
    · exact occupied_join env hw h hcmd ht hc
    · exact occupied_accept env hw h hcmd ht hc
    · exact occupied_ban env hs h hcmd ht hc
    · rw [step_eq_dispatch env hcmd hdispatch, dispatch, ht]
      exact hvacated ((handleLeave_reg_cases conn me
        { w with out := [], broadcasts := [] }).imp_right
        fun h => ⟨me, h⟩)
    · rw [step_eq_dispatch env hcmd hdispatch, dispatch, ht]
      exact hvacated (handleKick_reg_cases conn me { w with out := [], broadcasts := [] })

/-- Occupied rooms stay occupied unless the event strands one. -/
theorem occupied_step (hs : w.roster.Sound) (hw : w.roster.Within) (h : w.reg.Occupied)
    (hc : ¬ Strands env w e) : (step w (env, e)).reg.Occupied := by
  by_cases hcreate : ∃ r c n cap, Does env w e (.create r c n cap)
  · obtain ⟨r, me, n, cap, hdoes⟩ := hcreate
    obtain ⟨conn, command, hcmd, ht, -⟩ := creates_of_does hdoes
    exact occupied_create env h hcmd ht hc
  by_cases hleave : ∃ c r, Does env w e (.leave c r)
  · obtain ⟨c, r, hdoes⟩ := hleave
    exact occupied_leave env hs hw h hdoes hc
  · exact (step_leads w env e).occupied (fun c r hdoes => hleave ⟨c, r, hdoes⟩)
      (fun r c n cap hdoes => hcreate ⟨r, c, n, cap, hdoes⟩) h

theorem not_occupied_step (hs : w.roster.Sound) (hc : Strands env w e) :
    ¬ (step w (env, e)).reg.Occupied := by
  cases hc with
  | @create me command n r made out =>
    exact fun h => h r made.mem_roomList (made.members.trans (if_neg out))
  | @join conn me command n old hcmd ht h₁ live alone elsewhere =>
    have hleave := acceptLeave_of_alone hs live alone
    cases hjoin : roomJoined command me w with
    | some r =>
      have hne : old ≠ r := by
        rintro rfl
        unfold roomJoined at hjoin
        rw [h₁] at hjoin
        split at hjoin
        · rename_i hfind
          split_ifs at hjoin
          rw [hfind] at elsewhere
          exact elsewhere hjoin
        · cases hjoin
      rw [step_joined env hcmd ht hjoin]
      exact fun h => h old (by rwa [moveTo_roomList]) ((moveTo_members_of_ne hne).trans hleave)
    | none =>
      rw [step_eq_dispatch env hcmd (by simp [ht]), dispatch, ht]
      simp only
      rw [handleJoin_reg_of_not_joined (w := { w with out := [], broadcasts := [] }) h₁ hjoin,
        joinLeave_of_alone (w := { w with out := [], broadcasts := [] }) hs conn live alone]
      exact fun h => h old (by simpa using live) hleave
  | @accept conn me command r old hcmd ht accepted live alone elsewhere =>
    rw [step_accepted hcmd ht accepted]
    exact fun h => h old (by rwa [moveTo_roomList])
      ((moveTo_members_of_ne elsewhere.symm).trans (acceptLeave_of_alone hs live alone))
  | @ban conn me c command room target hcmd ht h₁ cur perm sql live found alone =>
    obtain ⟨-, hlist, -, -, hmembers⟩ := step_ban hs hcmd ht h₁ cur perm sql
    refine fun h => h room (hlist ▸ live) (List.eq_nil_iff_forall_not_mem.mpr fun c' hc' => ?_)
    obtain ⟨hin, hstay⟩ := (hmembers room live c').mp hc'
    rw [alone, List.mem_singleton] at hin
    exact hstay ⟨rfl, hin ▸ found⟩

end Step

/-- In every state of a run every live room has a member exactly if no event strands one. -/
theorem occupied_iff_no_strands (cfg : Config) (db : Database) (start : ℤ)
    (inputs : List (Env × Event)) :
    (∀ pre, pre <+: inputs →
      ∀ r ∈ (run step (World.init cfg db start) pre).reg.roomList,
        ((run step (World.init cfg db start) pre).room r).members ≠ []) ↔
      Along step (fun w input => ¬ Strands input.1 w input.2) (World.init cfg db start) inputs := by
  refine (along_iff_prefixes (J := fun w : World => w.roster.Sound ∧ w.roster.Within)
    (I := fun w => w.reg.Occupied) (fun w input h => ?_) (fun w input h hw hc => ?_)
    (fun w input h _ hc => ?_) ⟨(roster_init cfg db start).sound, ?_⟩ ?_).symm
  · exact ⟨(step_leads w input.1 input.2).sound h.1, (step_leads w input.1 input.2).within h.2⟩
  · exact occupied_step input.1 h.1 h.2 hw hc
  · exact not_occupied_step input.1 h.1 (not_not.mp hc)
  · rintro r ⟨⟩
  · rintro r ⟨⟩

/-- The only member of a room joins another one. -/
def desertedRun : List (Env × Event) :=
  [(.calm 0 0 "t0".toList, .accept 4 false),
   (.calm 0 0 "t0".toList, .accept 5 false),
   (.calm 0 0 "t0".toList, .line 4 "REGISTER alice pw".toList),
   (.calm 0 1 "t1".toList, .line 5 "REGISTER bob pw".toList),
   (.calm 0 0 "t0".toList, .line 4 "CREATE lounge".toList),
   (.calm 1 0 "t0".toList, .line 5 "CREATE attic".toList),
   (.calm 0 0 "t0".toList, .line 4 "JOIN attic".toList)]

theorem desertedRun_not_occupied :
    ¬ ∀ pre, pre <+: desertedRun →
      ∀ r ∈ (run step (World.init ⟨4, 4, 4, 10⟩ .empty 0) pre).reg.roomList,
        ((run step (World.init ⟨4, 4, 4, 10⟩ .empty 0) pre).room r).members ≠ [] := by
  intro h
  exact absurd (h desertedRun List.prefix_rfl 0) (by decide +kernel)

end ChatServer
