import ChatServer.Membership.Creation
import ChatServer.Membership.Invariant
import ChatServer.Replies.Outcome

/-! # Attempts that fail half way

CREATE registers the room before its creator is added to it, JOIN leaves the
old room before it looks for the new one, and ACCEPT consumes the invitation
before it looks for the room and does not read whether it was let in.
-/

namespace ChatServer

open Library World Roster

variable {env : Env} {w w' : World} {e : Event} {conn : Conn} {me : ClientPtr} {command : Cmd}
  {r room : RoomPtr} {n : Text}

/-- Nothing that a CREATE could change has changed. -/
structure NothingCreated (me : ClientPtr) (w w' : World) : Prop where
  rooms : w'.reg.roomList = w.reg.roomList
  members : ∀ r, (w'.room r).members = (w.room r).members
  admin : ∀ r, (w'.room r).adminClient = (w.room r).adminClient
  location : (w'.client me).currentRoom = (w.client me).currentRoom
  roomRows : w'.db.rooms = w.db.rooms
  roles : w'.db.roomRoles = w.db.roomRoles

/-- There is one new room, with a new name and the client as admin and only member. -/
structure RoomCreated (me : ClientPtr) (n : Text) (r : RoomPtr) (w w' : World) : Prop where
  rooms : w'.reg.roomList = w.reg.roomList ++ [r]
  unused : r ∉ w.reg.roomList
  name : (w'.room r).roomName = n
  fresh : ∀ r' ∈ w.reg.roomList, (w'.room r').roomName ≠ n
  members : (w'.room r).members = [me]
  admin : (w'.room r).adminClient = some me

/-- CREATE changes nothing when it is answered with an error, and creates a room when with OK. -/
structure CreateAtomic (conn : Conn) (me : ClientPtr) (command : Cmd) (w w' : World) : Prop where
  err : AnsweredErr conn w'.out → NothingCreated me w w'
  ok : AnsweredOk conn okCreated w'.out ∨ AnsweredOk conn okCreatedPrivate w'.out →
    ∃ n r, command.arg1 = some n ∧ RoomCreated me n r w w'

theorem createAtomic_replyErr {errCode : Text} :
    CreateAtomic conn me command w ({ w with out := [], broadcasts := [] }.replyErr conn errCode)
      where
  err := fun _ => ⟨rfl, fun _ => rfl, fun _ => rfl, rfl, rfl, rfl⟩
  ok := fun hok => by
    have herr : AnsweredErr conn ({ w with out := [], broadcasts := [] }.replyErr conn
        errCode).out :=
      answeredErr_replyErr rfl
    exact absurd hok (not_or.mpr ⟨herr.not_ok, herr.not_ok⟩)

theorem createdIn_room_of_ne {db : Database} {reg : Registry} {r' : RoomPtr} (hne : r' ≠ r) :
    (createdIn env n me r db reg).rooms r' = reg.rooms r' := by
  unfold createdIn
  split_ifs
  · simp [hne]
  · simp [hne]

theorem creates_answer {reg : Registry} (conn : Conn) (ht : command.type.Creates)
    (h₁ : command.arg1 = some n)
    (hcreate : createRoom env (some n) (some me) w.db w.reg = (.ok, some r, reg)) :
    let outs := (dispatch env command conn me { w with out := [], broadcasts := [] }).out
    ((w.client me).currentRoom = none ∧ 0 < w.reg.maxMembers →
      AnsweredOk conn okCreated outs ∨ AnsweredOk conn okCreatedPrivate outs) ∧
    (¬ ((w.client me).currentRoom = none ∧ 0 < w.reg.maxMembers) → AnsweredErr conn outs) := by
  obtain ⟨r', hr', -, -, -, rfl⟩ := createRoom_ok hcreate
  obtain rfl := Option.some.inj hr'
  obtain ⟨hadd, -⟩ := roomAddMember_newRoom env n me r w.db w.reg
  change (_ ↔ (w.client me).currentRoom = none ∧ _) at hadd
  rw [← hadd]
  rcases hresult : roomAddMember (some r) (some me) _ with ⟨err, reg'⟩
  rcases ht with ht | ht
  · simp only [dispatch, ht, handleCreate, h₁, hcreate, hresult]
    cases err with
    | ok => exact ⟨fun _ => .inl (answeredOk_replyOk rfl), fun h => absurd rfl h⟩
    | _ => exact ⟨fun h => absurd h (by simp), fun _ => answeredErr_replyErr rfl⟩
  · simp only [dispatch, ht, handleCreatePrivate, h₁, hcreate, hresult]
    cases err with
    | ok => exact ⟨fun _ => .inr (answeredOk_replyOk rfl), fun h => absurd rfl h⟩
    | _ => exact ⟨fun h => absurd h (by simp), fun _ => answeredErr_replyErr rfl⟩

theorem dispatch_not_created (conn : Conn) (ht : command.type.Creates)
    (h : ∀ n, command.arg1 = some n → ¬ Creatable env n w.reg) :
    ∃ errCode, dispatch env command conn me { w with out := [], broadcasts := [] } =
      { w with out := [], broadcasts := [] }.replyErr conn errCode := by
  cases h₁ : command.arg1 with
  | none =>
    rcases ht with ht | ht
    · exact ⟨errInvalidRoomName, by simp only [dispatch, ht, handleCreate, h₁]⟩
    · exact ⟨errInvalidRoomName, by simp only [dispatch, ht, handleCreatePrivate, h₁]⟩
  | some n =>
    rcases createRoom_cases env n me w.db w.reg with ⟨hmade, -⟩ | ⟨-, err, herr, hcreate⟩
    · exact absurd hmade (h n h₁)
    · rcases ht with ht | ht
      · simp only [dispatch, ht, handleCreate, h₁, hcreate]
        cases err with
        | ok => exact absurd rfl herr
        | _ => exact ⟨_, rfl⟩
      · simp only [dispatch, ht, handleCreatePrivate, h₁, hcreate]
        cases err with
        | ok => exact absurd rfl herr
        | _ => exact ⟨_, rfl⟩

/--
CREATE and CREATE_PRIVATE are all or nothing exactly if the client is in no
room, and rooms may have a member, whenever the room can be created.
-/
theorem create_atomic_iff (h : Commands w e conn me command) (ht : command.type.Creates) :
    CreateAtomic conn me command w (step w (env, e)) ↔
      ∀ n, command.arg1 = some n → Creatable env n w.reg →
        (w.client me).currentRoom = none ∧ 0 < w.reg.maxMembers := by
  have hvalid : command.type ≠ .invalid := by rcases ht with ht | ht <;> simp [ht]
  by_cases hmade : ∃ n, command.arg1 = some n ∧ Creatable env n w.reg
  · obtain ⟨n, h₁, hmade⟩ := hmade
    have hiff : (∀ n, command.arg1 = some n → Creatable env n w.reg →
        (w.client me).currentRoom = none ∧ 0 < w.reg.maxMembers) ↔
          (w.client me).currentRoom = none ∧ 0 < w.reg.maxMembers :=
      ⟨fun hfits => hfits n h₁ hmade, fun hfits _ _ _ => hfits⟩
    rw [hiff]
    rcases createRoom_cases env n me w.db w.reg with ⟨-, r, hcreate⟩ | ⟨hnot, -⟩
    · have hcreates : Creates env w e me command n r := ⟨conn, _, h, ht, h₁, hcreate⟩
      obtain ⟨hok, herr⟩ := creates_answer conn ht h₁ hcreate
      rw [← step_eq_dispatch env h hvalid] at hok herr
      constructor
      · intro hatomic
        by_contra hfits
        have hlist := (hatomic.err (herr hfits)).rooms
        rw [hcreates.reg_eq, createdIn_roomList] at hlist
        simp at hlist
      · intro hfits
        refine ⟨fun herr => ?_, fun _ => ⟨n, r, h₁, ?_⟩⟩
        · exact absurd (hok hfits) (not_or.mpr ⟨herr.not_ok, herr.not_ok⟩)
        · exact {
            rooms := by rw [hcreates.reg_eq, createdIn_roomList]
            unused := hcreates.new.1
            name := hcreates.roomName
            fresh := fun r' hr' => by
              have hne : r' ≠ r := fun he => hcreates.new.1 (he ▸ hr')
              rw [World.room, hcreates.reg_eq, createdIn_room_of_ne hne]
              exact hcreates.new.2.1 r' hr'
            members := by rw [hcreates.members, if_pos hfits]
            admin := hcreates.admin }
    · exact absurd hmade hnot
  · have hnot : ∀ n, command.arg1 = some n → ¬ Creatable env n w.reg :=
      fun n h₁ hn => hmade ⟨n, h₁, hn⟩
    refine iff_of_true ?_ fun n h₁ hn => absurd hn (hnot n h₁)
    obtain ⟨errCode, heq⟩ := dispatch_not_created conn ht hnot
    rw [step_eq_dispatch env h hvalid, heq]
    exact createAtomic_replyErr

/-- Nobody has moved, and no invitation has been used up. -/
structure Unmoved (me : ClientPtr) (w w' : World) : Prop where
  location : (w'.client me).currentRoom = (w.client me).currentRoom
  members : ∀ r, (w'.room r).members = (w.room r).members
  rooms : w'.reg.roomList = w.reg.roomList
  invites : w'.db.invites = w.db.invites

/-- The client is in a live room of the name, and a member of this room only. -/
structure MovedTo (me : ClientPtr) (n : Text) (r : RoomPtr) (reg : Registry) : Prop where
  live : r ∈ reg.roomList
  name : (reg.rooms r).roomName = n
  location : (reg.clients me).currentRoom = some r
  member : ∀ r' ∈ reg.roomList, me ∈ (reg.rooms r').members ↔ r' = r

/-- JOIN and ACCEPT change nothing when answered with an error, and move the client when with OK. -/
structure EnterAtomic (conn : Conn) (me : ClientPtr) (command : Cmd) (w w' : World) : Prop where
  err : AnsweredErr conn w'.out → Unmoved me w w'
  ok : AnsweredOk conn okJoined w'.out → ∃ n r, command.arg1 = some n ∧ MovedTo me n r w'.reg

/-- A room has a place, not counting the client's own. -/
def HasPlace (me : ClientPtr) (r : RoomPtr) (w : World) : Prop :=
  ((w.room r).members.erase me).length < (w.room r).memberCapacity

instance : Decidable (HasPlace me r w) := inferInstanceAs (Decidable (_ < _))

/-- The room that the command names is there and has a place if the client has one to leave. -/
def JoinFits (command : Cmd) (me : ClientPtr) (w : World) : Prop :=
  ∀ n old, command.arg1 = some n → (w.client me).currentRoom = some old →
    me ∈ (w.room old).members → ∃ r, findRoom (some n) w.reg = (.ok, some r) ∧ HasPlace me r w

/-- The room a client is invited to has a place, or is gone and the invitation cannot be deleted. -/
def AcceptFits (env : Env) (command : Cmd) (me : ClientPtr) (w : World) : Prop :=
  ∀ n, command.arg1 = some n → inviteFind env n (w.client me).clientName w.db →
    match (findRoom (some n) w.reg).2 with
    | some r => HasPlace me r w
    | none => env.sql .inviteAccept ≠ .done

theorem enterAtomic_welcome (hout : w'.out = [])
    (h : ∃ n r, command.arg1 = some n ∧ MovedTo me n r w'.reg) :
    EnterAtomic conn me command w (welcome conn me room w') where
  err := fun herr => by
    have hok : AnsweredOk conn okJoined (welcome conn me room w').out := by
      simp only [welcome, notice, broadcast_eq, sendHistory_eq, emit_out]
      exact (answeredOk_replyOk hout).append.append
    exact absurd hok herr.not_ok
  ok := fun _ => h

theorem moveTo_location : ((moveTo me r w.reg).clients me).currentRoom = some r := by
  simp [moveTo]

theorem movedTo_of_moveTo (hs : w.roster.Sound) (hs' : (rosterOf (moveTo me r w.reg) w.conns).Sound)
    (hfound : (findRoom (some n) w.reg).2 = some r) (hplace : HasPlace me r w) :
    MovedTo me n r (moveTo me r w.reg) := by
  obtain ⟨hr, hname⟩ := findRoom_some (Prod.ext rfl hfound)
  refine ⟨by rwa [moveTo_roomList], by rwa [moveTo_roomName], moveTo_location,
    fun r' hr' => ⟨?_, ?_⟩⟩
  · intro hm
    have hloc : ((moveTo me r w.reg).clients me).currentRoom = some r' :=
      (hs'.seated.of_member hr' hm).2
    exact Option.some.inj (hloc.symm.trans moveTo_location)
  · rintro rfl
    refine mem_moveTo ?_
    rwa [acceptLeave_members hs hr]

theorem not_mem_moveTo (hs : w.roster.Sound) (hr : r ∈ w.reg.roomList) (h : ¬ HasPlace me r w) :
    me ∉ ((moveTo me r w.reg).rooms r).members := by
  have hout : me ∉ ((acceptLeave me w.reg).rooms r).members := by
    rw [acceptLeave_members hs hr]
    exact (hs.seated.members_nodup hr).not_mem_erase
  unfold moveTo
  rcases roomAddMember_cases (acceptLeave me w.reg) r me with ⟨-, hin⟩ | ⟨hadd, -⟩ | ⟨-, -, hfree⟩
  · exact absurd acceptLeave_location hin
  · rw [hadd]
    exact hout
  · rw [acceptLeave_memberCapacity, acceptLeave_members hs hr] at hfree
    exact absurd hfree h

theorem handleJoin_refused (conn : Conn) (hout : w.out = []) (h₁ : command.arg1 = some n)
    (h : roomJoined command me w = none) :
    AnsweredErr conn (handleJoin command conn me w).out ∧
      (handleJoin command conn me w).reg = (joinLeave conn me w).reg ∧
      (handleJoin command conn me w).db = w.db := by
  have hleave : (joinLeave conn me w).db = w.db ∧ ((joinLeave conn me w).out = [] ∨
      AnsweredErr conn (joinLeave conn me w).out) := by
    unfold joinLeave
    split
    · exact ⟨rfl, .inl hout⟩
    · split
      · exact ⟨rfl, .inl hout⟩
      · exact ⟨rfl, .inr (answeredErr_replyErr hout)⟩
  have herr {reg : Registry} (errCode : Text) :
      AnsweredErr conn ({ joinLeave conn me w with reg }.replyErr conn errCode).out := by
    rcases hleave.2 with hnone | hfirst
    · exact answeredErr_replyErr hnone
    · exact hfirst.append
  unfold handleJoin
  simp only [h₁]
  split
  · rename_i room hfind
    split
    · rename_i hadd
      obtain ⟨hseated, hfound, hfree⟩ := joinLeave_add hfind hadd
      simp only [roomJoined, h₁, hfound, if_pos (And.intro hseated hfree)] at h
      cases h
    · rename_i hne hadd
      exact ⟨herr _, roomAddMember_err hne hadd, hleave.1⟩
  · exact ⟨herr _, rfl, hleave.1⟩

theorem roomJoined_found (h : roomJoined command me w = some r) :
    ∃ n, command.arg1 = some n ∧ findRoom (some n) w.reg = (.ok, some r) := by
  unfold roomJoined at h
  split at h
  · rename_i hfind
    split_ifs at h
    obtain rfl := Option.some.inj h
    obtain ⟨n, h₁⟩ := exists_name_of_findRoom hfind
    exact ⟨n, h₁, h₁ ▸ hfind⟩
  · cases h

theorem enterAtomic_of_kept (herr : AnsweredErr conn w'.out) (hreg : w'.reg = w.reg)
    (hdb : w'.db.invites = w.db.invites) : EnterAtomic conn me command w w' where
  err := fun _ =>
    ⟨by rw [client, hreg]; rfl, fun r => by rw [World.room, hreg]; rfl, by rw [hreg], hdb⟩
  ok := fun hok => absurd hok herr.not_ok

/-- A JOIN that is refused keeps everything unless it has taken the client out of its room. -/
theorem join_refused_atomic (hs : w.roster.Sound) {n : Text} (h₁ : command.arg1 = some n)
    (hjoin : roomJoined command me w = none)
    (hstep : step w (env, e) = handleJoin command conn me
      { w with out := [], broadcasts := [] }) :
    EnterAtomic conn me command w (step w (env, e)) ↔ JoinFits command me w := by
  obtain ⟨herr, hreg, hdb⟩ := handleJoin_refused (w :=
      { w with out := [], broadcasts := [] }) conn rfl h₁ hjoin
  rw [← hstep] at herr hreg hdb
  by_cases hin : ∃ old, (w.client me).currentRoom = some old ∧ me ∈ (w.room old).members
  · obtain ⟨old, hcur, hm⟩ := hin
    have hseated : ∀ old, (w.client me).currentRoom = some old → me ∈ (w.room old).members := by
      rintro old' hcur'
      obtain rfl := Option.some.inj (hcur.symm.trans hcur')
      exact hm
    refine iff_of_false (fun hatomic => ?_) fun hfits => ?_
    · have hloc := (hatomic.err herr).location
      have hout : ((step w (env, e)).client me).currentRoom = none := by
        rw [client, hreg, joinLeave_of_seated (w :=
          { w with out := [], broadcasts := [] }) conn hseated]
        exact acceptLeave_location
      rw [hout, hcur] at hloc
      cases hloc
    · obtain ⟨r, hfound, hplace⟩ := hfits n old h₁ hcur hm
      rw [HasPlace, ← acceptLeave_members hs (findRoom_some hfound).1] at hplace
      simp only [roomJoined, h₁, hfound, if_pos (And.intro hseated hplace)] at hjoin
      cases hjoin
  · refine iff_of_true (enterAtomic_of_kept herr ?_ (by rw [hdb])) fun n' old _ hcur hm =>
      absurd ⟨old, hcur, hm⟩ hin
    rw [hreg]
    cases hcur : (w.client me).currentRoom with
    | none =>
      have hcur' : (World.client { w with out := [], broadcasts := [] } me).currentRoom =
          none := hcur
      simp [joinLeave, hcur']
    | some old =>
      have hm : me ∉ (w.room old).members := fun hm => hin ⟨old, hcur, hm⟩
      exact (joinLeave_of_not_seated (w := { w with out := [], broadcasts := [] }) conn
        fun hseated => hm (hseated old hcur)).1

/-- JOIN is all or nothing exactly if a client in a room names a room with a place. -/
theorem join_atomic (hs : w.roster.Sound) (h : Commands w e conn me command)
    (ht : command.type = .join) :
    EnterAtomic conn me command w (step w (env, e)) ↔ JoinFits command me w := by
  have hs' : (step w (env, e)).roster.Sound := (step_leads w env e).sound hs
  have hstep : step w (env, e) = handleJoin command conn me
      { w with out := [], broadcasts := [] } := by
    rw [step_eq_dispatch env h (by simp [ht]), dispatch, ht]
  cases hjoin : roomJoined command me w with
  | some r =>
    have hjoin' : roomJoined command me { w with out := [], broadcasts := [] } = some r := hjoin
    obtain ⟨n, h₁, hfound⟩ := roomJoined_found hjoin
    obtain ⟨hr, hfree⟩ := roomJoined_some hjoin
    rw [acceptLeave_members hs hr] at hfree
    have hwelcome : step w (env, e) =
        welcome conn me r { w with reg := moveTo me r w.reg, out := [], broadcasts := [] } := by
      rw [hstep, handleJoin_of_joined hjoin']
    have hsound : (rosterOf (moveTo me r w.reg) w.conns).Sound := by
      rw [hwelcome] at hs'
      exact hs'
    refine iff_of_true ?_ fun n' old h₁' _ _ => ⟨r, ?_, hfree⟩
    · rw [hwelcome]
      exact enterAtomic_welcome rfl
        ⟨n, r, h₁, movedTo_of_moveTo hs hsound (by rw [hfound]) hfree⟩
    · obtain rfl := Option.some.inj (h₁.symm.trans h₁')
      exact hfound
  | none =>
    cases h₁ : command.arg1 with
    | none =>
      refine iff_of_true ?_ fun n old h₁' => by rw [h₁] at h₁'; cases h₁'
      rw [hstep, handleJoin, h₁]
      exact enterAtomic_of_kept (answeredErr_replyErr rfl) rfl rfl
    | some n => exact join_refused_atomic hs h₁ hjoin hstep

theorem inviteAccept_invites {db : Database} {name : Text} (h : inviteFind env n name db) :
    (inviteAccept env n name db).2.invites = db.invites ↔ env.sql .inviteAccept ≠ .done := by
  unfold inviteAccept
  cases hsql : env.sql .inviteAccept with
  | done =>
    refine iff_of_false (fun heq => ?_) (by simp)
    obtain ⟨i, hi⟩ := List.exists_mem_of_ne_nil _ (of_decide_eq_true h)
    obtain ⟨hrow, hkey⟩ := List.mem_filter.mp (Sql.mem_of_mem_rows hi)
    have hkept : i ∈ (db.invites.delete fun i => i.roomName = n ∧ i.invitee = name).rows :=
      (congrArg Table.rows heq) ▸ hrow
    simp only [Table.delete, List.mem_filter, hkey] at hkept
    exact absurd hkept.2 (by simp)
  | prepareFailed => exact iff_of_true rfl (by simp)
  | stepFailed k => exact iff_of_true rfl (by simp)

theorem handleAccept_not_found (conn : Conn) (h₁ : command.arg1 = some n)
    (hinv : inviteFind env n (w.client me).clientName w.db)
    (hfound : (findRoom (some n) w.reg).2 = none) : handleAccept env command conn me w =
      { w with db := (inviteAccept env n (w.client me).clientName w.db).2 }.replyErr conn
        errRoomNotFound := by
  simp only [handleAccept, h₁, hinv, Bool.not_true, Bool.false_eq_true, if_false, hfound]

theorem handleAccept_not_invited (conn : Conn)
    (h : ∀ n, command.arg1 = some n → ¬ inviteFind env n (w.client me).clientName w.db) :
    ∃ errCode, handleAccept env command conn me w = w.replyErr conn errCode := by
  unfold handleAccept
  cases h₁ : command.arg1 with
  | none => exact ⟨errInvalidCommand, rfl⟩
  | some n => exact ⟨errNotInvited, by simp [h n h₁]⟩

/--
ACCEPT is all or nothing exactly if the room of a client's invitation has a
place, or is not there and the invitation cannot be deleted.
-/
theorem accept_atomic (hs : w.roster.Sound) (h : Commands w e conn me command)
    (ht : command.type = .accept) :
    EnterAtomic conn me command w (step w (env, e)) ↔ AcceptFits env command me w := by
  have hs' : (step w (env, e)).roster.Sound := (step_leads w env e).sound hs
  have hstep : step w (env, e) = handleAccept env command conn me
      { w with out := [], broadcasts := [] } := by
    rw [step_eq_dispatch env h (by simp [ht]), dispatch, ht]
  by_cases hinvited : ∃ n, command.arg1 = some n ∧ inviteFind env n (w.client me).clientName w.db
  · obtain ⟨n, h₁, hinv⟩ := hinvited
    have hiff : AcceptFits env command me w ↔ match (findRoom (some n) w.reg).2 with
        | some r => HasPlace me r w
        | none => env.sql .inviteAccept ≠ .done := by
      refine ⟨fun hfits => hfits n h₁ hinv, fun hfits n' h₁' _ => ?_⟩
      obtain rfl := Option.some.inj (h₁.symm.trans h₁')
      exact hfits
    rw [hiff]
    cases hfound : (findRoom (some n) w.reg).2 with
    | none =>
      simp only
      rw [hstep, handleAccept_not_found (w := { w with out := [], broadcasts := [] }) conn h₁ hinv
        hfound,
        ← inviteAccept_invites hinv]
      refine ⟨fun hatomic => (hatomic.err (answeredErr_replyErr rfl)).invites, fun hkept => ?_⟩
      exact enterAtomic_of_kept (answeredErr_replyErr rfl) rfl hkept
    | some r =>
      simp only
      have hacc : roomAccepted env command me { w with out := [], broadcasts := [] } = some r := by
        simp only [roomAccepted, h₁]
        exact (if_pos hinv).trans hfound
      obtain ⟨db, hwelcome⟩ := handleAccept_of_accepted conn hacc
      rw [← hstep] at hwelcome
      constructor
      · intro hatomic
        have hok : AnsweredOk conn okJoined (step w (env, e)).out := by
          rw [hwelcome]
          simp only [welcome, notice, broadcast_eq, sendHistory_eq, emit_out]
          exact AnsweredOk.append (AnsweredOk.append (answeredOk_replyOk rfl))
        obtain ⟨n', r', -, hmoved⟩ := hatomic.ok hok
        rw [hwelcome] at hmoved
        obtain rfl : r' = r :=
          Option.some.inj (hmoved.location.symm.trans (moveTo_location (w := w)))
        by_contra hplace
        exact not_mem_moveTo hs (findRoom_some (Prod.ext rfl hfound)).1 hplace
          ((hmoved.member r' hmoved.live).mpr rfl)
      · intro hplace
        have hsound : (rosterOf (moveTo me r w.reg) w.conns).Sound := by
          rw [hwelcome] at hs'
          exact hs'
        rw [hwelcome]
        exact enterAtomic_welcome rfl ⟨n, r, h₁, movedTo_of_moveTo hs hsound hfound hplace⟩
  · have hnot : ∀ n, command.arg1 = some n → ¬ inviteFind env n (w.client me).clientName w.db :=
      fun n h₁ hinv => hinvited ⟨n, h₁, hinv⟩
    refine iff_of_true ?_ fun n h₁ hinv => absurd hinv (hnot n h₁)
    obtain ⟨errCode, heq⟩ := handleAccept_not_invited (w :=
        { w with out := [], broadcasts := [] }) conn hnot
    rw [hstep, heq]
    exact enterAtomic_of_kept (answeredErr_replyErr rfl) rfl rfl

/--
In every reachable state JOIN is all or nothing exactly if a client in a room
names a room with a place, and ACCEPT exactly if the room of an invitation has
a place, or is not there and the invitation cannot be deleted.
-/
theorem enter_atomic_iff (cfg : Config) (db : Database) (start : ℤ)
    (inputs : List (Env × Event)) (env : Env) (e : Event) (conn : Conn) (me : ClientPtr)
    (command : Cmd) :
    let w := run step (World.init cfg db start) inputs
    Commands w e conn me command →
      (command.type = .join →
        (EnterAtomic conn me command w (step w (env, e)) ↔ JoinFits command me w)) ∧
      (command.type = .accept →
        (EnterAtomic conn me command w (step w (env, e)) ↔ AcceptFits env command me w)) :=
  fun h => ⟨join_atomic run_sound h, accept_atomic run_sound h⟩

/-- Alice, registered and in no room. -/
def registered : World :=
  run step (World.init ⟨4, 4, 4, 10⟩ .empty 0)
    [(.calm 0 0 [], .accept 4 false),
     (.calm 0 0 "t0".toList, .line 4 "REGISTER alice pw".toList)]

/-- Alice alone in her room. -/
def aloneInLounge : List (Env × Event) :=
  [(.calm 0 0 [], .accept 4 false),
   (.calm 0 0 "t0".toList, .line 4 "REGISTER alice pw".toList),
   (.calm 0 0 [], .line 4 "CREATE lounge".toList)]

def aliceConn : Conn := ⟨4, some 0, false⟩

theorem registered_commands (text : Text) :
    Commands registered (.line 4 text) aliceConn 0 (parseLine text) :=
  ⟨text, rfl, rfl, rfl, rfl⟩

theorem aloneInLounge_commands (text : Text) :
    Commands (run step (World.init ⟨4, 4, 4, 10⟩ .empty 0) aloneInLounge) (.line 4 text) aliceConn 0
      (parseLine text) :=
  ⟨text, rfl, rfl, rfl, rfl⟩

theorem create_atomic_lounge :
    CreateAtomic aliceConn 0 (parseLine "CREATE lounge".toList) registered
      (step registered (.calm 0 0 [], .line 4 "CREATE lounge".toList)) :=
  (create_atomic_iff (registered_commands _) (.inl (by decide))).mpr
    fun _ _ _ => by decide +kernel

/-- Alice, who is in a room, is refused a second one, which is there all the same. -/
theorem secondRoom_not_atomic :
    ¬ CreateAtomic aliceConn 0 (parseLine "CREATE den".toList)
      (run step (World.init ⟨4, 4, 4, 10⟩ .empty 0) aloneInLounge)
      (step (run step (World.init ⟨4, 4, 4, 10⟩ .empty 0) aloneInLounge)
        (.calm 1 0 [], .line 4 "CREATE den".toList)) := by
  intro h
  have hrooms := (h.err ⟨errServerError, by decide +kernel⟩).rooms
  revert hrooms
  decide +kernel

theorem enter_atomic_lounge :
    EnterAtomic aliceConn 0 (parseLine "JOIN lounge".toList)
      (run step (World.init ⟨4, 4, 4, 10⟩ .empty 0) aloneInLounge)
      (step (run step (World.init ⟨4, 4, 4, 10⟩ .empty 0) aloneInLounge)
        (.calm 0 0 [], .line 4 "JOIN lounge".toList)) := by
  refine ((enter_atomic_iff ⟨4, 4, 4, 10⟩ .empty 0 aloneInLounge _ _ aliceConn 0 _
    (aloneInLounge_commands _)).1 (by decide)).mpr fun n old h₁ _ _ => ⟨0, ?_, by decide +kernel⟩
  obtain rfl : n = "lounge".toList := by
    rw [← Option.some.inj h₁]
    decide
  decide +kernel

/-- Alice names a room that is not there, and is out of her own. -/
theorem unknownRoom_not_atomic :
    ¬ EnterAtomic aliceConn 0 (parseLine "JOIN den".toList)
      (run step (World.init ⟨4, 4, 4, 10⟩ .empty 0) aloneInLounge)
      (step (run step (World.init ⟨4, 4, 4, 10⟩ .empty 0) aloneInLounge)
        (.calm 0 0 [], .line 4 "JOIN den".toList)) := by
  intro h
  have hloc := (h.err ⟨errRoomNotFound, by decide +kernel⟩).location
  revert hloc
  decide +kernel

end ChatServer
