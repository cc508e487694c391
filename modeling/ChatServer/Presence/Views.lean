import ChatServer.Presence.Announced

/-! # The view of a member

Which events mislead a member of a room, and that its view is true as long as
none does.
-/

namespace ChatServer

open Library World Roster

variable {env : Env} {w w' : World} {e : Event} {conn : Conn} {c d : ClientPtr}
  {r room : RoomPtr} {command : Cmd} {fd : Fd} {text : Text}

/-! ## Events that mislead -/

theorem logsOut_command (h : Commands w e conn d command) (hout : LogsOut w (env, e) c) :
    c = d ∧ (command.type = .logout ∨ command.type = .logoutAll) := by
  obtain ⟨text, rfl, hconn, hme, rfl⟩ := h
  obtain ⟨conn', hconn', hme', hend | ⟨text', hline, ht⟩⟩ := hout
  · cases hend
  · obtain ⟨hfd, rfl⟩ := Event.line.inj hline
    rw [← hfd, hconn] at hconn'
    obtain rfl := Option.some.inj hconn'
    rw [hme] at hme'
    exact ⟨(Option.some.inj hme').symm, ht⟩

theorem Misleads.type (h : Commands w e conn d command) (hm : Misleads c r w (env, e)) :
    command.type ∈ [CmdType.join, .accept, .ban, .logout, .logoutAll] := by
  cases hm with
  | join h' ht => rw [(h.unique h').2.2, ht]; decide
  | accept h' ht => rw [(h.unique h').2.2, ht]; decide
  | acceptFull h' ht => rw [(h.unique h').2.2, ht]; decide
  | ban h' ht => rw [(h.unique h').2.2, ht]; decide
  | gone hout => rcases (logsOut_command h hout).2 with ht | ht <;> simp [ht]

theorem Misleads.of_join (hm : Misleads c r w (env, e)) (h : Commands w e conn d command)
    (ht : command.type = .join) : command.arg1 ≠ none ∧ d ∈ (w.room r).members ∧ d ≠ c := by
  cases hm with
  | join h' _ h₁ inside other =>
    obtain ⟨-, rfl, rfl⟩ := h.unique h'
    exact ⟨h₁, inside, other⟩
  | accept h' ht' => rw [← (h.unique h').2.2, ht] at ht'; cases ht'
  | acceptFull h' ht' => rw [← (h.unique h').2.2, ht] at ht'; cases ht'
  | ban h' ht' => rw [← (h.unique h').2.2, ht] at ht'; cases ht'
  | gone hout => rcases (logsOut_command h hout).2 with ht' | ht' <;> rw [ht] at ht' <;> cases ht'

theorem Misleads.of_accept (hm : Misleads c r w (env, e)) (h : Commands w e conn d command)
    (ht : command.type = .accept) : ∃ room, roomAccepted env command d w = some room ∧ d ≠ c ∧
      (d ∈ (w.room r).members ∨
        (room = r ∧
          (w.room r).memberCapacity ≤ ((acceptLeave d w.reg).rooms r).members.length)) := by
  cases hm with
  | join h' ht' => rw [← (h.unique h').2.2, ht] at ht'; cases ht'
  | accept h' _ accepted inside other =>
    obtain ⟨-, rfl, rfl⟩ := h.unique h'
    exact ⟨_, accepted, other, .inl inside⟩
  | acceptFull h' _ accepted full other =>
    obtain ⟨-, rfl, rfl⟩ := h.unique h'
    exact ⟨r, accepted, other, .inr ⟨rfl, full⟩⟩
  | ban h' ht' => rw [← (h.unique h').2.2, ht] at ht'; cases ht'
  | gone hout => rcases (logsOut_command h hout).2 with ht' | ht' <;> rw [ht] at ht' <;> cases ht'

theorem Misleads.of_ban (hm : Misleads c r w (env, e)) (h : Commands w e conn d command)
    (ht : command.type = .ban) : ∃ name target, (w.client d).currentRoom = some r ∧
      permissionCheck env (w.room r).roomName (w.client d).clientName .ban w.db ∧
      command.arg1 = some name ∧ env.sql .banAdd = .done ∧
      (findClient (some name) w.reg).2 = some target ∧ target ∈ (w.room r).members ∧
      target ≠ c := by
  cases hm with
  | join h' ht' => rw [← (h.unique h').2.2, ht] at ht'; cases ht'
  | accept h' ht' => rw [← (h.unique h').2.2, ht] at ht'; cases ht'
  | acceptFull h' ht' => rw [← (h.unique h').2.2, ht] at ht'; cases ht'
  | ban h' _ inside allowed h₁ sql found member other =>
    obtain ⟨-, rfl, rfl⟩ := h.unique h'
    exact ⟨_, _, inside, allowed, h₁, sql, found, member, other⟩
  | gone hout => rcases (logsOut_command h hout).2 with ht' | ht' <;> rw [ht] at ht' <;> cases ht'

theorem misleads_join_iff (h : Commands w e conn d command) (ht : command.type = .join)
    (h₁ : command.arg1 ≠ none) :
    Misleads c r w (env, e) ↔ d ∈ (w.room r).members ∧ d ≠ c := by
  constructor
  · exact fun hm => (hm.of_join h ht).2
  · exact fun ⟨inside, other⟩ => .join h ht h₁ inside other

theorem misleads_accept_iff (h : Commands w e conn d command) (ht : command.type = .accept)
    (haccept : roomAccepted env command d w = some room) :
    Misleads c r w (env, e) ↔ d ≠ c ∧ (d ∈ (w.room r).members ∨
      (room = r ∧ (w.room r).memberCapacity ≤ ((acceptLeave d w.reg).rooms r).members.length)) := by
  constructor
  · intro hm
    obtain ⟨room', hroom', hplace⟩ := hm.of_accept h ht
    rwa [Option.some.inj (haccept.symm.trans hroom')]
  · rintro ⟨other, inside | ⟨rfl, full⟩⟩
    · exact .accept h ht haccept inside other
    · exact .acceptFull h ht haccept full other

theorem misleads_logsOut_iff (h : LogsOut w (env, e) d)
    (hcommand : ∀ conn d command, Commands w e conn d command →
      command.type = .logout ∨ command.type = .logoutAll) :
    Misleads c r w (env, e) ↔ (w.client d).currentRoom = some r ∧ d ∉ (w.room r).members := by
  have hno {conn d command} (h' : Commands w e conn d command) {t : CmdType}
      (ht : command.type = t) (hne : t ≠ .logout) (hne' : t ≠ .logoutAll) : False := by
    rcases hcommand _ _ _ h' with h | h
    · exact hne (ht ▸ h)
    · exact hne' (ht ▸ h)
  constructor
  · intro hm
    cases hm with
    | join h' ht' => exact (hno h' ht' (by decide) (by decide)).elim
    | accept h' ht' => exact (hno h' ht' (by decide) (by decide)).elim
    | acceptFull h' ht' => exact (hno h' ht' (by decide) (by decide)).elim
    | ban h' ht' => exact (hno h' ht' (by decide) (by decide)).elim
    | @gone d' hout seat unlisted =>
      obtain rfl : d' = d := by
        obtain ⟨conn, hconn, hme, hend⟩ := h
        obtain ⟨conn', hconn', hme', hend'⟩ := hout
        have hfd : conn.fd = conn'.fd := by
          rcases hend with rfl | ⟨text, rfl, -⟩
          · rcases hend' with hend' | ⟨text', hend', -⟩
            · exact Event.disconnect.inj hend'
            · cases hend'
          · rcases hend' with hend' | ⟨text', hend', -⟩
            · cases hend'
            · exact (Event.line.inj hend').1
        rw [hfd, hconn'] at hconn
        obtain rfl := Option.some.inj hconn
        exact Option.some.inj (hme'.symm.trans hme)
      exact ⟨seat, unlisted⟩
  · exact fun ⟨seat, unlisted⟩ => .gone h seat unlisted

/-! ## Events that keep the members of a room -/

theorem step_members_eq (hw : Watches c r w) (henter : ∀ d n, ¬ Does env w e (.enter d r n))
    (hleave : ∀ d, ¬ Does env w e (.leave d r)) (hclose : ¬ Does env w e (.close r)) :
    ((step w (env, e)).room r).members = (w.room r).members :=
  (step_leads w env e).members_eq hw.member.1 henter hleave hclose

/-- The commands that neither enter nor leave a room that is already there. -/
def CmdType.Settled (type : CmdType) : Prop :=
  type ∉ [.join, .leave, .kick, .logout, .logoutAll, .ban, .accept]

theorem CmdType.Plain.settled {type : CmdType} (h : type.Plain) : type.Settled := by
  simp only [CmdType.Plain, CmdType.Settled, List.mem_cons, List.not_mem_nil, or_false,
    not_or] at h ⊢
  simp only [h, not_false_eq_true, and_self]

theorem line_members_eq (hw : Watches c r w) (hconn : w.conns.get conn.fd = some conn)
    (ht : (parseLine text).type.Settled) :
    ((step w (env, .line conn.fd text)).room r).members = (w.room r).members := by
  have hpermits {a : ChatAct} (h : Does env w (.line conn.fd text) a) :
      Permits env w.reg w.db conn (parseLine text) a := by
    rcases h with _ | ⟨hconn', hp⟩
    rw [hconn] at hconn'
    exact Option.some.inj hconn' ▸ hp
  simp only [CmdType.Settled, List.mem_cons, List.not_mem_nil, or_false, not_or] at ht
  refine step_members_eq hw (fun d n h => ?_) (fun d h => ?_) fun h => ?_
  · cases hpermits h with
    | created _ _ _ new => exact new hw.member.1
    | join ht' => exact ht.1 ht'
    | accept ht' => exact ht.2.2.2.2.2.2 ht'
  · cases hpermits h with
    | leave ht' => simp [ht] at ht'
    | kick ht' => exact ht.2.2.1 ht'
    | ban ht' => exact ht.2.2.2.2.2.1 ht'
  · cases hpermits h with
    | close ht' => simp [ht] at ht'

theorem Watches.cleared (hw : Watches c r w) : Watches c r { w with out := [], broadcasts := [] } :=
  ⟨hw.sound, hw.vacant, hw.names, hw.title, hw.member⟩

theorem line_heard (hconn : w.conns.get conn.fd = some conn)
    (h : Reports conn { w with out := [], broadcasts := [] }
      (processLine env conn text { w with out := [], broadcasts := [] }).1) :
    heardBy c r w (step w (env, .line conn.fd text)) = [] := by
  have hstep : step w (env, .line conn.fd text) =
      (processLine env conn text { w with out := [], broadcasts := [] }).1 := by
    simp only [step, handleEvent, hconn]
  rw [heardBy, hstep, heard_of_reports h]
  rfl

theorem announced_anonymous (hw : Watches c r w) (hconn : w.conns.get conn.fd = some conn)
    (hme : conn.me = none) : Announced c r w (step w (env, .line conn.fd text)) := by
  have hanswer : AnswersOnce conn [] (processLine env conn text
      { w with out := [], broadcasts := [] }).1.out := by
    rcases processLine_cases env conn text { w with out := [], broadcasts := [] } with ⟨-, -,
        hanswer⟩ | heq
    · exact hanswer
    · rw [heq, hme]
      exact dispatchAnonymous_answersOnce
  refine announced_of_same (fun x => ?_) (line_heard hconn (reports_of_answersOnce hanswer))
  by_cases ht : (parseLine text).type.Settled
  · rw [line_members_eq hw hconn ht]
  · have hreg : (step w (env, .line conn.fd text)).reg = w.reg := by
      simp only [step, handleEvent, hconn]
      rcases processLine_cases env conn text { w with out := [], broadcasts := [] } with ⟨-, hreg,
          -⟩ | heq
      · exact hreg
      · simp only [CmdType.Settled, not_not, List.mem_cons, List.not_mem_nil, or_false] at ht
        rw [heq, hme]
        rcases ht with ht | ht | ht | ht | ht | ht | ht <;> rw [dispatchAnonymous, ht] <;> rfl
    rw [World.room, hreg]
    rfl

theorem announced_plain (hw : Watches c r w) (hconn : w.conns.get conn.fd = some conn)
    (hme : conn.me = some d) (ht : (parseLine text).type.Plain) :
    Announced c r w (step w (env, .line conn.fd text)) := by
  refine announced_of_same (fun x => by rw [line_members_eq hw hconn ht.settled])
    (line_heard hconn ?_)
  rcases processLine_cases env conn text { w with out := [], broadcasts := [] } with ⟨-, -,
      hanswer⟩ | heq
  · exact reports_of_answersOnce hanswer
  · rw [heq, hme]
    exact dispatch_reports ht

theorem heardBy_dispatch (h : Commands w e conn d command) (ht : command.type ≠ .invalid) :
    heardBy c r w (step w (env, e)) = heard (w.client c).socketFd (w.room r).roomName
      (dispatch env command conn d { w with out := [], broadcasts := [] }).out := by
  rw [heardBy, step_eq_dispatch env h ht]

theorem Commands.online (hs : w.roster.Sound) (h : Commands w e conn d command) :
    d ∈ w.reg.clientList ∧ (w.client d).socketFd = conn.fd := by
  obtain ⟨text, rfl, hconn, hme, rfl⟩ := h
  exact hs.linked.mem_of_conn (roster_conns_eq_some.mpr ⟨conn, hconn, hme⟩)

/-! ## Commands that enter or leave -/

/-- A client that a command moves to a room is announced there, if it was let in. -/
theorem announced_moved_iff (hw : Watches c r w) (h : Commands w e conn d command)
    (hreg : (step w (env, e)).reg = moveTo d room w.reg)
    (hout : (step w (env, e)).out =
      (welcome conn d room { w with out := [], broadcasts := [], reg := moveTo d room w.reg }).out)
    (hstay : MemberOf c r (step w (env, e))) :
    Announced c r w (step w (env, e)) ↔ (d ≠ c → d ∉ (w.room r).members ∧ (room = r →
      ((acceptLeave d w.reg).rooms r).members.length < (w.room r).memberCapacity)) := by
  obtain ⟨hlisted, hfd⟩ := h.online hw.sound
  have hleads := step_leads w env e
  have hs : (rosterOf (moveTo d room w.reg) (step w (env, e)).conns).Sound := by
    rw [← hreg]
    exact hleads.sound hw.sound
  have hv : (rosterOf (moveTo d room w.reg) (step w (env, e)).conns).Vacant := by
    rw [← hreg]
    exact hleads.vacant hw.vacant
  have hin : c ∈ ((moveTo d room w.reg).rooms r).members := by
    rw [← hreg]
    exact hstay.2
  have hheard : heardBy c r w (step w (env, e)) =
      if d ≠ c ∧ room = r then [.joined (w.client d).clientName] else [] := by
    rw [heardBy, hout]
    exact heard_welcome hw.cleared hfd.symm hlisted hs hv hin
  have hmembers : ((step w (env, e)).room r).members = (w.room r).members.erase d ++
      if room = r ∧ ((acceptLeave d w.reg).rooms r).members.length < (w.room r).memberCapacity
      then [d] else [] := by
    rw [World.room, hreg]
    exact moveTo_members hw room
  by_cases hdc : d = c
  · subst hdc
    refine iff_of_true ?_ fun hne => absurd rfl hne
    rw [if_neg fun h => h.1 rfl] at hheard
    refine announced_of_same (fun x => ?_) hheard
    have hback : d ∈ (if room = r ∧ ((acceptLeave d w.reg).rooms r).members.length <
        (w.room r).memberCapacity then [d] else []) := by
      have hstay' := hstay.2
      rw [hmembers, List.mem_append, hw.nodup.mem_erase_iff] at hstay'
      exact hstay'.resolve_left fun h => h.1 rfl
    split_ifs at hback with hplace
    · rw [hmembers, if_pos hplace, List.mem_append, hw.nodup.mem_erase_iff, List.mem_singleton]
      rcases eq_or_ne x d with rfl | hne
      · simp [hw.member.2]
      · simp [hne]
    · cases hback
  · have hheard' : heardBy c r w (step w (env, e)) =
        if room = r then [.joined (w.client d).clientName] else [] := by
      rw [hheard]
      exact if_congr (and_iff_right hdc) rfl rfl
    rw [announced_move_iff hw.nodup hdc hmembers hheard' And.left]
    constructor
    · rintro ⟨hout, hin⟩ -
      exact ⟨hout, fun hroom => (hin hroom).2⟩
    · exact fun h => ⟨(h hdc).1, fun hroom => ⟨hroom, (h hdc).2 hroom⟩⟩

theorem members_of_joinLeave (hw : Watches c r w) :
    ((joinLeave conn d w).room r).members = (w.room r).members.erase d := by
  by_cases hseated : ∀ old, (w.client d).currentRoom = some old → d ∈ (w.room old).members
  · rw [joinLeave_of_seated conn hseated]
    exact members_of_departure hw rfl
  · rw [World.room, (joinLeave_of_not_seated conn hseated).1]
    refine (List.erase_of_not_mem fun hd => hseated fun old hcur => ?_).symm
    rw [hw.eq_of_seat hcur hd]
    exact hd

theorem announced_join_iff (hw : Watches c r w) (h : Commands w e conn d command)
    (ht : command.type = .join) (hstay : MemberOf c r (step w (env, e))) :
    Announced c r w (step w (env, e)) ↔ ¬ Misleads c r w (env, e) := by
  obtain ⟨hlisted, hfd⟩ := h.online hw.sound
  have hstep : step w (env, e) = handleJoin command conn d
      { w with out := [], broadcasts := [] } := by
    rw [step_eq_dispatch env h (by simp [ht]), dispatch, ht]
  cases h₁ : command.arg1 with
  | none =>
    rw [handleJoin, h₁] at hstep
    refine iff_of_true (announced_of_same (fun x => by rw [hstep]; rfl) ?_) fun hm => ?_
    · rw [heardBy, hstep, heard_of_reports reports_err]
      rfl
    · exact (hm.of_join h ht).1 h₁
  | some n =>
    rw [misleads_join_iff h ht (by simp [h₁])]
    cases hjoin : roomJoined command d w with
    | none =>
      have hreg : (step w (env, e)).reg = (joinLeave conn d
          { w with out := [], broadcasts := [] }).reg := by
        rw [hstep]
        exact handleJoin_reg_of_not_joined h₁ hjoin
      have hmembers : ((step w (env, e)).room r).members = (w.room r).members.erase d := by
        rw [World.room, hreg]
        exact members_of_joinLeave hw.cleared
      have hin := hstay.2
      rw [hmembers] at hin
      have hne := hw.ne_of_mem_erase hin
      have hheard : heardBy c r w (step w (env, e)) =
          if False then [.gone (w.client d).clientName] else [] := by
        have hreplies : Replies conn [] (handleJoin command conn d
            { w with out := [], broadcasts := [] }).out :=
          handleJoin_of_not_joined hjoin
        obtain ⟨texts, houts⟩ := hreplies
        rw [if_neg not_false, heardBy, hstep, houts]
        refine heard_of_ne fun o ho => ?_
        obtain ⟨text, -, rfl⟩ := List.mem_map.mp ho
        exact hfd ▸ hw.socketFd_ne hlisted hne
      rw [announced_erase_iff hw.nodup hne hmembers hheard, false_iff, and_iff_left hne]
    | some room =>
      have hjoin' : roomJoined command d { w with out := [], broadcasts := [] } = some room := hjoin
      rw [announced_moved_iff hw h (step_joined env h ht hjoin)
        (by rw [hstep, handleJoin_of_joined hjoin']) hstay, not_and']
      have hplace := (roomJoined_some hjoin).2
      refine forall_congr' fun _ => and_iff_left ?_
      rintro rfl
      exact hplace

theorem announced_accept_iff (hw : Watches c r w) (h : Commands w e conn d command)
    (ht : command.type = .accept) (hstay : MemberOf c r (step w (env, e))) :
    Announced c r w (step w (env, e)) ↔ ¬ Misleads c r w (env, e) := by
  have hstep : step w (env, e) = handleAccept env command conn d
      { w with out := [], broadcasts := [] } := by
    rw [step_eq_dispatch env h (by simp [ht]), dispatch, ht]
  cases haccept : roomAccepted env command d w with
  | none =>
    have haccept' : roomAccepted env command d { w with out := [], broadcasts := [] } = none :=
        haccept
    refine iff_of_true (announced_of_same (fun x => ?_) ?_) fun hm => ?_
    · rw [World.room, step_not_accepted h ht haccept]
      rfl
    · rw [heardBy, hstep,
        heard_of_reports (reports_of_answersOnce (handleAccept_of_not_accepted haccept'))]
      rfl
    · obtain ⟨room, hroom, -⟩ := hm.of_accept h ht
      rw [haccept] at hroom
      cases hroom
  | some room =>
    have haccept' : roomAccepted env command d { w with out := [], broadcasts := [] } = some room :=
        haccept
    obtain ⟨db, heq⟩ := handleAccept_of_accepted conn haccept'
    rw [misleads_accept_iff h ht haccept,
      announced_moved_iff hw h (step_accepted h ht haccept) (by rw [hstep, heq]; rfl) hstay]
    rw [not_and, not_or, not_and, not_le]

theorem announced_leave (hw : Watches c r w) (h : Commands w e conn d command)
    (ht : command.type = .leave) (hstay : MemberOf c r (step w (env, e))) :
    Announced c r w (step w (env, e)) := by
  obtain ⟨hlisted, hfd⟩ := h.online hw.sound
  have hstep : step w (env, e) = handleLeave conn d { w with out := [], broadcasts := [] } := by
    rw [step_eq_dispatch env h (by simp [ht]), dispatch, ht]
  have hmembers : ((step w (env, e)).room r).members = (w.room r).members.erase d := by
    rw [hstep]
    exact handleLeave_members hw.cleared
  have hin := hstay.2
  rw [hmembers] at hin
  have hne := hw.ne_of_mem_erase hin
  have hex : (w.client c).socketFd ≠ conn.fd := (hfd ▸ hw.socketFd_ne hlisted hne).symm
  have hheard : heardBy c r w (step w (env, e)) =
      if d ∈ (w.room r).members then [.gone (w.client d).clientName] else [] := by
    rw [heardBy, hstep]
    exact handleLeave_heard hw.cleared hex hne
  exact (announced_erase_iff hw.nodup hne hmembers hheard).mpr Iff.rfl

theorem announced_kick (hw : Watches c r w) (h : Commands w e conn d command)
    (ht : command.type = .kick) (hstay : MemberOf c r (step w (env, e))) :
    Announced c r w (step w (env, e)) := by
  have hstep : step w (env, e) = handleKick command conn d
      { w with out := [], broadcasts := [] } := by
    rw [step_eq_dispatch env h (by simp [ht]), dispatch, ht]
  have hin := hstay.2
  rw [hstep] at hin
  rw [Announced, heardBy, hstep]
  exact handleKick_heard hw.cleared hin

theorem announced_other (hw : Watches c r w) (h : Commands w e conn d command)
    (ht : command.type = .promote ∨ command.type = .status) :
    Announced c r w (step w (env, e)) := by
  have hsettled : command.type.Settled := by rcases ht with ht | ht <;> simp [CmdType.Settled, ht]
  refine announced_of_same (fun x => ?_) ?_
  · obtain ⟨text, rfl, hconn, hme, rfl⟩ := h
    rw [line_members_eq hw hconn hsettled]
  · rcases ht with ht | ht
    · rw [heardBy_dispatch h (by simp [ht]), dispatch, ht]
      exact handlePromote_heard hw.cleared
    · rw [heardBy_dispatch h (by simp [ht]), dispatch, ht]
      exact handleStatus_heard hw.cleared

theorem announced_ban_iff (hw : Watches c r w) (h : Commands w e conn d command)
    (ht : command.type = .ban) (hstay : MemberOf c r (step w (env, e))) :
    Announced c r w (step w (env, e)) ↔ ¬ Misleads c r w (env, e) := by
  have hheard : heardBy c r w (step w (env, e)) = [] := by
    rw [heardBy_dispatch h (by simp [ht]), dispatch, ht]
    exact handleBan_heard
  by_cases hm : Misleads c r w (env, e)
  · refine iff_of_false ?_ (not_not.mpr hm)
    obtain ⟨name, target, inside, allowed, h₁, sql, found, member, other⟩ := hm.of_ban h ht
    obtain ⟨-, -, -, -, hmem⟩ := step_ban hw.sound h ht h₁ inside allowed sql
    have hchange : changesFor c r w (step w (env, e)) = [.gone (w.client target).clientName] := by
      refine changesFor_of_gone hw.nodup member other fun x => ?_
      rw [hmem r hw.member.1 x, found]
      simp [and_comm, eq_comm]
    rw [Announced, hheard, hchange]
    simp
  · refine iff_of_true (announced_of_same (fun x => ?_) hheard) hm
    rcases step_ban_cases env h ht with ⟨-, hreg⟩ | ⟨room, name, h₁, hcur, hperm, hsql⟩
    · rw [World.room, hreg]
      rfl
    · obtain ⟨-, -, -, -, hmem⟩ := step_ban hw.sound h ht h₁ hcur hperm hsql
      rw [hmem r hw.member.1 x]
      refine and_iff_left_of_imp fun hx => ?_
      rintro ⟨rfl, hfound⟩
      refine hm (.ban h ht hcur hperm h₁ hsql hfound hx ?_)
      rintro rfl
      exact ((hmem r hw.member.1 x).mp hstay.2).2 ⟨rfl, hfound⟩

theorem step_logsOut_eq (h : LogsOut w (env, e) d) : ∃ conn : Conn,
    w.conns.get conn.fd = some conn ∧ conn.me = some d ∧
    (step w (env, e)).reg.rooms = (leaveLastRoom conn d
      { w with out := [], broadcasts := [] }).reg.rooms ∧
    heard fd text (step w (env, e)).out =
      heard fd text (leaveLastRoom conn d { w with out := [], broadcasts := [] }).out := by
  obtain ⟨conn, hconn, hme, rfl | ⟨line, rfl, ht⟩⟩ := h
  · refine ⟨conn, hconn, hme, ?_, ?_⟩
    · simp only [step, handleEvent, hconn, disconnectCleanup, hme, deleteClient_snd]
    · simp only [step, handleEvent, hconn, disconnectCleanup, hme]
  · have hcmd : Commands w (.line conn.fd line) conn d (parseLine line) :=
      ⟨line, rfl, hconn, hme, rfl⟩
    refine ⟨conn, hconn, hme, ?_, ?_⟩
    · rcases ht with ht | ht
      · rw [step_eq_dispatch env hcmd (by simp [ht]), dispatch, ht]
        simp only [handleLogout, World.setMe, deleteClient_snd]
        rfl
      · rw [step_eq_dispatch env hcmd (by simp [ht]), dispatch, ht]
        simp only [handleLogoutAll, World.setMe, deleteClient_snd]
        rfl
    · rcases ht with ht | ht
      · rw [step_eq_dispatch env hcmd (by simp [ht]), dispatch, ht]
        exact heard_of_reports reports_ok
      · rw [step_eq_dispatch env hcmd (by simp [ht]), dispatch, ht]
        exact heard_of_reports reports_ok

theorem announced_logsOut_iff (hw : Watches c r w) (h : LogsOut w (env, e) d)
    (hstay : MemberOf c r (step w (env, e))) :
    Announced c r w (step w (env, e)) ↔ ¬ Misleads c r w (env, e) := by
  have hcommand : ∀ conn d command, Commands w e conn d command →
      command.type = .logout ∨ command.type = .logoutAll :=
    fun _ _ _ hcmd => (logsOut_command hcmd h).2
  rw [misleads_logsOut_iff h hcommand]
  obtain ⟨conn, hconn, hme, hrooms, hout⟩ := step_logsOut_eq h
  have hmembers : ((step w (env, e)).room r).members = (w.room r).members.erase d := by
    rw [World.room, hrooms]
    exact leaveLastRoom_members hw.cleared
  have hin := hstay.2
  rw [hmembers] at hin
  have hne := hw.ne_of_mem_erase hin
  obtain ⟨hlisted, hfd⟩ :=
    hw.sound.linked.mem_of_conn (roster_conns_eq_some.mpr ⟨conn, hconn, hme⟩)
  have hex : (w.client c).socketFd ≠ conn.fd := by
    rw [← hfd]
    exact (hw.socketFd_ne hlisted hne).symm
  have hheard : heardBy c r w (step w (env, e)) =
      if (w.client d).currentRoom = some r then [.gone (w.client d).clientName] else [] := by
    rw [heardBy, hout]
    exact leaveLastRoom_heard hw.cleared hex hne
  rw [announced_erase_iff hw.nodup hne hmembers hheard, not_and_not_right]
  constructor
  · exact fun h => h.mp
  · exact fun h => ⟨h, fun hd => (hw.sound.seated.of_member hw.member.1 hd).2⟩

/-! ## Steps -/

theorem not_misleads (hcommand : ∀ conn d command, ¬ Commands w e conn d command)
    (hout : ∀ d, ¬ LogsOut w (env, e) d) : ¬ Misleads c r w (env, e) := by
  intro hm
  cases hm with
  | join h => exact hcommand _ _ _ h
  | accept h => exact hcommand _ _ _ h
  | acceptFull h => exact hcommand _ _ _ h
  | ban h => exact hcommand _ _ _ h
  | gone h => exact hout _ h

theorem not_misleads_of_conn (he : ∀ fd, e = .disconnect fd ∨ (∃ text, e = .line fd text) →
    ∀ conn, w.conns.get fd = some conn → conn.me = none) : ¬ Misleads c r w (env, e) := by
  refine not_misleads ?_ ?_
  · rintro conn d command ⟨text, rfl, hconn, hme, -⟩
    rw [he conn.fd (.inr ⟨text, rfl⟩) conn hconn] at hme
    cases hme
  · rintro d ⟨conn, hconn, hme, hend⟩
    rw [he conn.fd (hend.imp_right fun ⟨text, h, _⟩ => ⟨text, h⟩) conn hconn] at hme
    cases hme

/-- A command is announced exactly if it does not mislead. -/
theorem announced_command_iff (hw : Watches c r w) (h : Commands w e conn d command)
    (hstay : MemberOf c r (step w (env, e))) :
    Announced c r w (step w (env, e)) ↔ ¬ Misleads c r w (env, e) := by
  have hof (h' : command.type ∉ [CmdType.join, .accept, .ban, .logout, .logoutAll]) :
      ¬ Misleads c r w (env, e) := fun hm => h' (hm.type h)
  by_cases hplain : command.type.Plain
  · obtain ⟨text, rfl, hconn, hme, rfl⟩ := h
    refine iff_of_true (announced_plain hw hconn hme hplain) (hof fun ht => hplain ?_)
    revert ht
    simp only [List.mem_cons, List.not_mem_nil, or_false]
    tauto
  · simp only [CmdType.Plain, not_not, List.mem_cons, List.not_mem_nil, or_false] at hplain
    rcases hplain with ht | ht | ht | ht | ht | ht | ht | ht | ht
    · exact announced_join_iff hw h ht hstay
    · exact iff_of_true (announced_leave hw h ht hstay) (hof (by simp [ht]))
    · exact iff_of_true (announced_kick hw h ht hstay) (hof (by simp [ht]))
    · exact iff_of_true (announced_other hw h (.inl ht)) (hof (by simp [ht]))
    · exact iff_of_true (announced_other hw h (.inr ht)) (hof (by simp [ht]))
    · obtain ⟨text, rfl, hconn, hme, rfl⟩ := h
      exact announced_logsOut_iff hw ⟨conn, hconn, hme, .inr ⟨text, rfl, .inl ht⟩⟩ hstay
    · obtain ⟨text, rfl, hconn, hme, rfl⟩ := h
      exact announced_logsOut_iff hw ⟨conn, hconn, hme, .inr ⟨text, rfl, .inr ht⟩⟩ hstay
    · exact announced_ban_iff hw h ht hstay
    · exact announced_accept_iff hw h ht hstay

theorem announced_of_quiet (hrooms : (step w (env, e)).reg.rooms = w.reg.rooms)
    (hout : ∀ o ∈ (step w (env, e)).out, ¬ replyNotice <+: o.line.bytes) :
    Announced c r w (step w (env, e)) :=
  announced_of_same (fun x => by rw [World.room, hrooms]; rfl)
    (heard_eq_nil fun o ho _ => presenceOf_of_not_notice (hout o ho))

theorem announced_connect_iff {ssl : Bool} :
    Announced c r w (step w (env, .accept fd ssl)) ↔ ¬ Misleads c r w (env, .accept fd ssl) := by
  refine iff_of_true (announced_of_quiet ?_ fun o ho => ?_) (not_misleads_of_conn ?_)
  · simp only [step, handleEvent]
    split_ifs <;> rfl
  · by_cases hguard : fd < 0 ∨ w.conns.get fd ≠ none
    · simp [step, handleEvent, hguard] at ho
    · obtain ⟨b, rfl⟩ : ∃ b : Bool,
          o = ⟨fd, .rawSend, { bytes := [if b then 'T' else 'P'] }⟩ := by
        refine ⟨ssl, ?_⟩
        cases ssl <;> simpa [step, handleEvent, hguard] using ho
      cases b <;> exact of_decide_eq_false rfl
  · rintro fd' (h | ⟨text, h⟩) <;> cases h

theorem announced_line_iff (hw : Watches c r w)
    (hstay : MemberOf c r (step w (env, .line fd text))) :
    Announced c r w (step w (env, .line fd text)) ↔ ¬ Misleads c r w (env, .line fd text) := by
  have hme_of (hnone : ∀ conn, w.conns.get fd = some conn → conn.me = none) (fd' : Fd)
      (h : Event.line fd text = .disconnect fd' ∨ ∃ text', Event.line fd text = .line fd' text') :
      ∀ conn, w.conns.get fd' = some conn → conn.me = none := by
    rcases h with h | ⟨text', h⟩
    · cases h
    · obtain ⟨rfl, -⟩ := Event.line.inj h
      exact hnone
  cases hconn : w.conns.get fd with
  | none =>
    refine iff_of_true (announced_of_quiet ?_ ?_) (not_misleads_of_conn (hme_of ?_))
    · simp only [step, handleEvent, hconn]
    · simp [step, handleEvent, hconn]
    · simp [hconn]
  | some conn =>
    obtain rfl := w.conns.fd_eq _ _ hconn
    cases hme : conn.me with
    | none =>
      refine iff_of_true (announced_anonymous hw hconn hme) (not_misleads_of_conn (hme_of ?_))
      simp [hconn, hme]
    | some d => exact announced_command_iff hw ⟨text, rfl, hconn, hme, rfl⟩ hstay

theorem announced_disconnect_iff (hw : Watches c r w)
    (hstay : MemberOf c r (step w (env, .disconnect fd))) :
    Announced c r w (step w (env, .disconnect fd)) ↔ ¬ Misleads c r w (env, .disconnect fd) := by
  have hme_of (hnone : ∀ conn, w.conns.get fd = some conn → conn.me = none) (fd' : Fd)
      (h : Event.disconnect fd = .disconnect fd' ∨ ∃ text, Event.disconnect fd = .line fd' text) :
      ∀ conn, w.conns.get fd' = some conn → conn.me = none := by
    rcases h with h | ⟨text, h⟩
    · obtain rfl := Event.disconnect.inj h
      exact hnone
    · cases h
  cases hconn : w.conns.get fd with
  | none =>
    refine iff_of_true (announced_of_quiet ?_ ?_) (not_misleads_of_conn (hme_of ?_))
    · simp only [step, handleEvent, hconn]
    · simp [step, handleEvent, hconn]
    · simp [hconn]
  | some conn =>
    obtain rfl := w.conns.fd_eq _ _ hconn
    cases hme : conn.me with
    | none =>
      refine iff_of_true (announced_of_quiet ?_ ?_) (not_misleads_of_conn (hme_of ?_))
      · simp only [step, handleEvent, hconn, disconnectCleanup, hme]
      · simp [step, handleEvent, hconn, disconnectCleanup, hme]
      · simp [hconn, hme]
    | some d => exact announced_logsOut_iff hw ⟨conn, hconn, hme, .inl rfl⟩ hstay

theorem announced_shutdown_iff :
    Announced c r w (step w (env, .shutdown)) ↔ ¬ Misleads c r w (env, .shutdown) := by
  refine iff_of_true (announced_of_quiet rfl fun o ho => ?_) (not_misleads_of_conn ?_)
  · have hbytes : o.line.bytes = formatErrReply maxLineLen errServerShutdown := by
      simp only [step, handleEvent, rawSend_eq, emit_out, List.nil_append, List.mem_flatMap,
        List.map_cons, List.map_nil, List.mem_singleton] at ho
      obtain ⟨fd', -, rfl⟩ := ho
      rfl
    rw [hbytes]
    exact (isStatus_lineOf (by decide)).not_notice
  · rintro fd' (h | ⟨text', h⟩) <;> cases h

theorem announced_iff (hw : Watches c r w) (hstay : MemberOf c r (step w (env, e))) :
    Announced c r w (step w (env, e)) ↔ ¬ Misleads c r w (env, e) := by
  cases e with
  | accept fd ssl => exact announced_connect_iff
  | line fd text => exact announced_line_iff hw hstay
  | disconnect fd => exact announced_disconnect_iff hw hstay
  | cleanup =>
    refine iff_of_true (announced_of_quiet rfl ?_) (not_misleads_of_conn ?_)
    · simp [step, handleEvent]
    · rintro fd' (h | ⟨text', h⟩) <;> cases h
  | shutdown => exact announced_shutdown_iff

/-! ## Views along a run -/

theorem step_memberName (hs : w.roster.Sound) (hr : r ∈ (step w (env, e)).reg.roomList)
    (hd : d ∈ ((step w (env, e)).room r).members) :
    ((step w (env, e)).client d).clientName = (w.client d).clientName := by
  rcases (step_leads w env e).member hs hr hd with henter | ⟨-, -, hname, -⟩
  · obtain ⟨conn, command, hcmd, -⟩ := enters_of_does henter
    exact hcmd.clientName env d
  · exact hname

/-- The changes turn the names of the members before a step into those after it. -/
theorem foldl_changesFor (hw : Watches c r w) (hstay : MemberOf c r (step w (env, e))) :
    (changesFor c r w (step w (env, e))).foldl Change.apply (othersNames c r w) =
      othersNames c r (step w (env, e)) := by
  have hnodup : ((step w (env, e)).room r).members.Nodup :=
    ((step_leads w env e).sound hw.sound).seated.members_nodup hstay.1
  have hnames : (others c r (step w (env, e))).map (fun d => (w.client d).clientName) =
      (others c r (step w (env, e))).map fun d => ((step w (env, e)).client d).clientName :=
    List.map_congr_left fun d hd =>
      (step_memberName hw.sound hstay.1 (List.mem_of_mem_filter hd)).symm
  rw [othersNames, othersNames, ← hnames]
  exact Change.foldl_between _ (hw.nodup.filter _) (hnodup.filter _)

theorem run_roomName_length {cfg : Config} {db : Database} {start : ℤ}
    {inputs : List (Env × Event)} :
    ∀ r ∈ (run step (World.init cfg db start) inputs).reg.roomList,
      ((run step (World.init cfg db start) inputs).room r).roomName.length < 32 := by
  refine run_invariant
    (I := fun w : World => ∀ r ∈ w.reg.roomList, (w.room r).roomName.length < 32) ?_ ?_ inputs
  · rintro w ⟨env, e⟩ h r hr
    rcases mem_step_roomList hr with hr' | ⟨me, command, n, hcreates⟩
    · rw [step_roomName hr']
      exact h r hr'
    · rw [hcreates.roomName]
      have hn := hcreates.new.2.2
      simp only [badLength, decide_eq_false_iff_not, not_or, not_le] at hn
      exact hn.2
  · exact fun r hr => absurd hr List.not_mem_nil

theorem run_watches {cfg : Config} {db : Database} {start : ℤ} {inputs : List (Env × Event)}
    (h : MemberOf c r (run step (World.init cfg db start) inputs)) :
    Watches c r (run step (World.init cfg db start) inputs) where
  sound := run_sound
  vacant := run_vacant
  names := run_clientName_length cfg db start inputs
  title := run_roomName_length r h.1
  member := h

theorem along_announced_iff {cfg : Config} {db : Database} {start : ℤ}
    {earlier later : List (Env × Event)}
    (hstay : ∀ pre, pre <+: later →
      MemberOf c r (run step (run step (World.init cfg db start) earlier) pre)) :
    Along step (fun w input => Announced c r w (step w input))
        (run step (World.init cfg db start) earlier) later ↔
      Along step (fun w input => ¬ Misleads c r w input)
        (run step (World.init cfg db start) earlier) later := by
  induction later generalizing earlier with
  | nil => exact Iff.rfl
  | cons input later ih =>
    have hnow := hstay [] (List.nil_prefix)
    have hnext := hstay [input] (List.prefix_append [input] later)
    refine and_congr (announced_iff (run_watches hnow) hnext) ?_
    have hrest := @ih (earlier ++ [input])
    rw [run_concat] at hrest
    exact hrest fun pre hpre => hstay (input :: pre) (List.cons_prefix_cons.mpr ⟨rfl, hpre⟩)

/-- As long as every step is announced, the view is true. -/
theorem viewAfter_eq {cfg : Config} {db : Database} {start : ℤ}
    {earlier later : List (Env × Event)}
    (hstay : ∀ pre, pre <+: later →
      MemberOf c r (run step (run step (World.init cfg db start) earlier) pre))
    (h : Along step (fun w input => Announced c r w (step w input))
      (run step (World.init cfg db start) earlier) later) :
    viewAfter c r (othersNames c r (run step (World.init cfg db start) earlier))
        (run step (World.init cfg db start) earlier) later =
      othersNames c r (run step (run step (World.init cfg db start) earlier) later) := by
  induction later generalizing earlier with
  | nil => rfl
  | cons input later ih =>
    have hnow := hstay [] (List.nil_prefix)
    have hnext := hstay [input] (List.prefix_append [input] later)
    have hstep := foldl_changesFor (run_watches hnow) hnext
    have hannounced : heardBy c r _ _ = changesFor c r _ _ := h.1
    have hrest := @ih (earlier ++ [input])
    rw [run_concat] at hrest
    rw [viewAfter, hannounced, hstep, run_cons]
    exact hrest (fun pre hpre => hstay (input :: pre) (List.cons_prefix_cons.mpr ⟨rfl, hpre⟩)) h.2

/--
A client that stays a member of a room knows its other members from the notices
it receives, each change being announced to it once and nothing else, exactly
if no event of the run misleads it.
-/
theorem presence_true_iff (cfg : Config) (db : Database) (start : ℤ)
    (earlier later : List (Env × Event)) (c : ClientPtr) (r : RoomPtr) :
    let w := run step (World.init cfg db start) earlier
    (∀ pre, pre <+: later → MemberOf c r (run step w pre)) →
      ((∀ pre, pre <+: later →
          viewAfter c r (othersNames c r w) w pre = othersNames c r (run step w pre)) ∧
        Along step (fun w input => Announced c r w (step w input)) w later ↔
      Along step (fun w input => ¬ Misleads c r w input) w later) := by
  intro w hstay
  rw [← along_announced_iff hstay, and_iff_right_iff_imp]
  rintro h pre ⟨rest, rfl⟩
  exact viewAfter_eq (fun pre' hpre => hstay pre' (hpre.trans (List.prefix_append _ _)))
    (along_append.mp h).1

/-- Alice hears that Bob leaves, and knows that she is alone. -/
theorem leave_told :
    let w := run step (World.init ⟨4, 4, 4, 10⟩ .empty 0) aliceAndBob
    let later := [(Env.calm 0 1 [], Event.line 5 "LEAVE".toList)]
    (∀ pre, pre <+: later →
        viewAfter 0 0 (othersNames 0 0 w) w pre = othersNames 0 0 (run step w pre)) ∧
      Along step (fun w input => Announced 0 0 w (step w input)) w later := by
  refine (presence_true_iff ⟨4, 4, 4, 10⟩ .empty 0 aliceAndBob _ 0 0 fun pre hpre => ?_).mpr
    ⟨fun hm => ?_, trivial⟩
  · have hcases : pre = [] ∨ pre = [(Env.calm 0 1 [], Event.line 5 "LEAVE".toList)] := by
      rcases List.prefix_cons_iff.mp hpre with rfl | ⟨t, rfl, ht⟩
      · exact .inl rfl
      · exact .inr (by rw [List.prefix_nil.mp ht])
    rcases hcases with rfl | rfl
    · exact ⟨by decide +kernel, by decide +kernel⟩
    · exact ⟨by decide +kernel, by decide +kernel⟩
  · have hcommands : Commands (run step (World.init ⟨4, 4, 4, 10⟩ .empty 0) aliceAndBob)
        (.line 5 "LEAVE".toList) ⟨5, some 1, false⟩ 1 (parseLine "LEAVE".toList) :=
      ⟨"LEAVE".toList, rfl, rfl, rfl, rfl⟩
    exact absurd (hm.type hcommands) (by decide)

/-- Bob tries a room that does not exist: he is out of the lounge, and Alice is not told. -/
theorem join_not_told :
    let w := run step (World.init ⟨4, 4, 4, 10⟩ .empty 0) aliceAndBob
    let later := [(Env.calm 0 1 [], Event.line 5 "JOIN den".toList)]
    MemberOf 0 0 w ∧ MemberOf 0 0 (run step w later) ∧
      viewAfter 0 0 (othersNames 0 0 w) w later ≠ othersNames 0 0 (run step w later) := by
  exact ⟨⟨by decide +kernel, by decide +kernel⟩, ⟨by decide +kernel, by decide +kernel⟩,
    by decide +kernel⟩

end ChatServer
