import ChatServer.Replies.Answers
import ChatServer.Transport.Raw

/-! # Lines to TLS connections

A line to a TLS connection goes through its SSL object unless it is one of the
raw sends that broadcasts, replays and notices to single users make.
-/

namespace ChatServer

open Library World Roster

variable {env : Env} {w : World} {command : Cmd} {conn : Conn} {me c : ClientPtr}
  {r room : RoomPtr} {T : Fd → Prop} {text : Text} {fd : Fd} {fds : List Fd} {line : Line}
  {reg reg' : Registry} {conns : Conns} {db : Database}

/-! ## The ways of sending -/

theorem sslOnly_append {a b : List Output} :
    SslOnly T (a ++ b) ↔ SslOnly T a ∧ SslOnly T b := List.forall_mem_append

theorem sslOnly_append_own (hT : T conn.fd → conn.ssl = true) {outs : List Output} {α : Type*}
    {xs : List α} {f : α → Line} :
    SslOnly T (outs ++ xs.map fun x => ⟨conn.fd, conn.channel, f x⟩) ↔ SslOnly T outs := by
  rw [sslOnly_append]
  refine and_iff_left fun o ho hto => ?_
  obtain ⟨x, -, rfl⟩ := List.mem_map.mp ho
  rw [Conn.channel, if_pos (hT hto)]

theorem sslOnly_connSend (hT : T conn.fd → conn.ssl = true) {lines : List Line} :
    SslOnly T (w.connSend conn lines).out ↔ SslOnly T w.out := sslOnly_append_own hT

theorem Replies.ssl {outs outs' : List Output} (h : Replies conn outs outs')
    (hT : T conn.fd → conn.ssl = true) : SslOnly T outs' ↔ SslOnly T outs := by
  obtain ⟨texts, rfl⟩ := h
  exact sslOnly_append_own hT

theorem Answers.ssl {outs outs' : List Output} (h : Answers conn outs outs')
    (hT : T conn.fd → conn.ssl = true) : SslOnly T outs' ↔ SslOnly T outs := h.replies.ssl hT

theorem sslOnly_reply (hT : T conn.fd → conn.ssl = true) :
    SslOnly T (w.reply conn text).out ↔ SslOnly T w.out := sslOnly_connSend hT

theorem sslOnly_replyOk (hT : T conn.fd → conn.ssl = true) :
    SslOnly T (w.replyOk conn text).out ↔ SslOnly T w.out := sslOnly_reply hT

theorem sslOnly_replyErr (hT : T conn.fd → conn.ssl = true) :
    SslOnly T (w.replyErr conn text).out ↔ SslOnly T w.out := sslOnly_reply hT

theorem sslOnly_rawSend : SslOnly T (w.rawSend fds [line]).out ↔
    SslOnly T w.out ∧ ∀ fd ∈ fds, ¬ T fd := by
  rw [rawSend_eq, emit_out, sslOnly_append]
  refine and_congr_right fun _ => ⟨fun h fd hfd hT => ?_, fun h o ho hT => ?_⟩
  · cases h ⟨fd, .rawSend, line⟩ (by simpa using hfd) hT
  · obtain ⟨fd, hfd, hline⟩ := List.mem_flatMap.mp ho
    obtain rfl : o = ⟨fd, .rawSend, line⟩ := by simpa using hline
    exact absurd hT (h fd hfd)

theorem sslOnly_broadcast : SslOnly T (w.broadcast r line fd).out ↔
    SslOnly T w.out ∧ ∀ fd' ∈ broadcastFds r fd w.reg, ¬ T fd' := sslOnly_rawSend

theorem sslOnly_notice {user action : Text} : SslOnly T (w.notice r user action fd).out ↔
    SslOnly T w.out ∧ ∀ fd' ∈ broadcastFds r fd w.reg, ¬ T fd' := sslOnly_rawSend

theorem historyHeader_mem {room : Room} (h : ¬ room.history.stored = 0) :
    ⟨snprintf maxLineLen (lineOf ["NOTICE history START".toList, room.roomName]), none⟩ ∈
      historyLines room := by
  simp [historyLines, h]

theorem sslOnly_sendHistory : SslOnly T (w.sendHistory r fd).out ↔
    SslOnly T w.out ∧ ∀ fd' ∈ if (w.room r).history.stored = 0 then [] else [fd], ¬ T fd' := by
  rw [sendHistory_eq, emit_out, sslOnly_append, World.room]
  refine and_congr_right fun _ => ?_
  split_ifs with hempty
  · simp [historyLines, hempty, SslOnly]
  · constructor
    · intro h fd' hfd' hT
      obtain rfl := List.mem_singleton.mp hfd'
      cases h ⟨fd', .rawSend, _⟩ (List.mem_map_of_mem (historyHeader_mem hempty)) hT
    · intro h o ho hT
      obtain ⟨line, -, rfl⟩ := List.mem_map.mp ho
      exact absurd hT (h fd (List.mem_singleton_self fd))

/-! ## Recipients in a changed registry -/

theorem roomRemoveMember_ok (h : c ∈ (reg.rooms r).members) :
    ∃ reg', roomRemoveMember (some r) (some c) reg = (.ok, reg') := by
  simp [roomRemoveMember, h]

theorem broadcastFds_setAdmin :
    broadcastFds r fd (reg.setAdmin room c) = broadcastFds r fd reg := by
  rcases eq_or_ne r room with rfl | hne
  · simp [broadcastFds]
  · simp [broadcastFds, hne]

theorem mem_broadcastFds_iff_of_others {fd' : Fd}
    (ha : ∀ c, (reg'.clients c).socketFd = (reg.clients c).socketFd)
    (hm : ∀ c', c' ≠ c → (c' ∈ (reg'.rooms r).members ↔ c' ∈ (reg.rooms r).members))
    (hc : (reg.clients c).socketFd = fd) :
    fd' ∈ broadcastFds r fd reg' ↔ fd' ∈ broadcastFds r fd reg := by
  simp only [mem_broadcastFds, ha]
  refine and_congr_right fun hne => exists_congr fun c' => and_congr_left fun hfd => hm c' ?_
  rintro rfl
  exact hne (hfd.symm.trans hc)

theorem setCurrentRoom_socketFd {o : Option RoomPtr} (c' : ClientPtr) :
    ((reg.setCurrentRoom c o).clients c').socketFd = (reg.clients c').socketFd := by
  rcases eq_or_ne c' c with rfl | hne
  · simp
  · simp [hne]

theorem mem_broadcastFds_leave {fd' : Fd} (hc : (reg.clients c).socketFd = fd) :
    fd' ∈ broadcastFds r fd ((roomRemoveMember (some room) (some c) reg).2.setCurrentRoom c none) ↔
      fd' ∈ broadcastFds r fd reg := by
  rw [roomRemoveMember_snd]
  refine mem_broadcastFds_iff_of_others (c := c) setCurrentRoom_socketFd (fun c' hne => ?_) hc
  rcases eq_or_ne r room with rfl | hr
  · simp [List.mem_erase_of_ne hne]
  · simp [hr]

theorem mem_broadcastFds_enter {fd' : Fd} (hc : (reg.clients c).socketFd = fd) :
    fd' ∈ broadcastFds r fd
        ((roomAddMember (some room) (some c) reg).2.setCurrentRoom c (some room)) ↔
      fd' ∈ broadcastFds r fd reg := by
  rcases roomAddMember_cases reg room c with ⟨h, -⟩ | ⟨h, -⟩ | ⟨h, -⟩ <;> rw [h]
  · exact mem_broadcastFds_iff_of_others (c := c) setCurrentRoom_socketFd (fun _ _ => Iff.rfl) hc
  · exact mem_broadcastFds_iff_of_others (c := c) setCurrentRoom_socketFd (fun _ _ => Iff.rfl) hc
  · refine mem_broadcastFds_iff_of_others (c := c) setCurrentRoom_socketFd (fun c' hne => ?_) hc
    rcases eq_or_ne r room with rfl | hr
    · simp [hne]
    · simp [hr]

/-! ## Commands that only answer -/

theorem handleHistory_ssl (hT : T conn.fd → conn.ssl = true) :
    SslOnly T (handleHistory env command conn me w).out ↔ SslOnly T w.out := by
  unfold handleHistory
  split
  · exact sslOnly_replyErr hT
  · simp only
    split
    · exact sslOnly_replyErr hT
    · exact sslOnly_connSend hT

/-! ## Commands that reach others -/

theorem sslOnly_silent {outs outs' : List Output} (h : SslOnly T outs ↔ SslOnly T outs') :
    SslOnly T outs ↔ SslOnly T outs' ∧ ∀ fd ∈ ([] : List Fd), ¬ T fd := by
  rw [h]
  simp

theorem sslOnly_refused (hT : T conn.fd → conn.ssl = true) :
    SslOnly T (w.replyErr conn text).out ↔ SslOnly T w.out ∧ ∀ fd ∈ ([] : List Fd), ¬ T fd := by
  rw [sslOnly_replyErr hT]
  simp

theorem handleMsg_ssl (hT : T conn.fd → conn.ssl = true) :
    SslOnly T (handleMsg env command conn me w).out ↔
      SslOnly T w.out ∧ ∀ fd ∈ rawMsg env command conn me w, ¬ T fd := by
  unfold handleMsg rawMsg roomOthers
  cases hcur : (w.client me).currentRoom with
  | none =>
    rw [ite_self]
    exact sslOnly_refused hT
  | some room =>
    rcases hrate : rateLimitCheck env me w.reg with ⟨ok, reg⟩
    cases ok with
    | false => exact sslOnly_refused hT
    | true =>
      cases h₁ : command.arg1 with
      | none => exact sslOnly_refused hT
      | some body =>
        by_cases hbody : body = []
        · simp only [hbody, if_true, Option.getD_some, ne_eq, not_true, and_false, if_false]
          exact sslOnly_refused hT
        · simp only [hbody, if_false, Option.getD_some, ne_eq, not_false_eq_true, and_true, if_true]
          rw [sslOnly_replyOk hT, sslOnly_broadcast, broadcastFds_roomAddHistory hrate]

theorem handleEdit_ssl (hT : T conn.fd → conn.ssl = true) :
    SslOnly T (handleEdit env command conn me w).out ↔
      SslOnly T w.out ∧ ∀ fd ∈ rawEdit env command me w, ¬ T fd := by
  unfold handleEdit rawEdit
  cases hcur : (w.client me).currentRoom with
  | none => exact sslOnly_refused hT
  | some room =>
    cases h₁ : command.arg1 with
    | none => exact sslOnly_refused hT
    | some idStr =>
      cases h₂ : command.arg2 with
      | none => exact sslOnly_refused hT
      | some body =>
        by_cases hbody : body = []
        · simp only [hbody, if_true, ne_eq, not_true, false_and, if_false]
          exact sslOnly_refused hT
        by_cases hid : atoll idStr ≤ 0
        · simp only [hbody, hid, not_lt.mpr hid, if_true, if_false, false_and, and_false]
          exact sslOnly_refused hT
        rcases hedit : roomEditMessage env room (atoll idStr) (w.client me).clientName body w.db
          w.reg with ⟨res, db, reg⟩
        have hkeep : rosterOf reg w.conns = w.roster := rosterOf_roomEditMessage hedit
        simp only [hbody, hid, not_le.mp hid, if_false, ne_eq, not_false_eq_true, true_and, hedit]
        cases res with
        | ok => rw [if_pos rfl, sslOnly_replyOk hT, sslOnly_broadcast, broadcastFds_congr hkeep]
        | _ => exact sslOnly_refused hT

theorem handleDelete_ssl (hT : T conn.fd → conn.ssl = true) :
    SslOnly T (handleDelete env command conn me w).out ↔
      SslOnly T w.out ∧ ∀ fd ∈ rawDelete env command me w, ¬ T fd := by
  unfold handleDelete rawDelete
  cases hcur : (w.client me).currentRoom with
  | none => exact sslOnly_refused hT
  | some room =>
    cases h₁ : command.arg1 with
    | none => exact sslOnly_refused hT
    | some idStr =>
      by_cases hid : atoll idStr ≤ 0
      · simp only [hid, not_lt.mpr hid, if_true, if_false, false_and]
        exact sslOnly_refused hT
      rcases hdelete : roomDeleteMessage env room (atoll idStr) (w.client me).clientName
        ((w.room room).adminClient = some me) w.db w.reg with ⟨res, db, reg⟩
      have hkeep : rosterOf reg w.conns = w.roster := rosterOf_roomDeleteMessage hdelete
      simp only [hid, not_le.mp hid, if_false, true_and, hdelete]
      cases res with
      | ok => rw [if_pos rfl, sslOnly_replyOk hT, sslOnly_broadcast, broadcastFds_congr hkeep]
      | _ => exact sslOnly_refused hT

theorem handlePm_ssl (hT : T conn.fd → conn.ssl = true) :
    SslOnly T (handlePm env command conn me w).out ↔
      SslOnly T w.out ∧ ∀ fd ∈ rawPm env command me w, ¬ T fd := by
  unfold handlePm rawPm
  cases h₁ : command.arg1 with
  | none => exact sslOnly_refused hT
  | some name =>
    cases h₂ : command.arg2 with
    | none => exact sslOnly_refused hT
    | some body =>
      by_cases hbody : body = []
      · simp only [hbody, if_true, Option.getD_some, ne_eq, not_true, false_and, if_false]
        exact sslOnly_refused hT
      rcases hrate : rateLimitCheck env me w.reg with ⟨ok, reg⟩
      simp only [hbody, if_false, Option.getD_some, ne_eq, not_false_eq_true, true_and]
      cases ok with
      | false => exact sslOnly_refused hT
      | true =>
        simp only [if_true, findClient_rateLimitCheck hrate]
        cases hfind : (findClient (some name) w.reg).2 with
        | none => exact sslOnly_refused hT
        | some target =>
          simp only
          rw [sslOnly_replyOk hT, sslOnly_rawSend]
          rfl

theorem sslOnly_others {w' : World} (hreg : w'.reg = w.reg) :
    SslOnly T (match (w.client me).currentRoom with
      | none => w'
      | some room => w'.broadcast room line conn.fd).out ↔
      SslOnly T w'.out ∧ ∀ fd ∈ roomOthers conn me w, ¬ T fd := by
  unfold roomOthers
  cases hcur : (w.client me).currentRoom with
  | none => simp
  | some room => rw [sslOnly_broadcast, hreg]

theorem handleRead_ssl (hT : T conn.fd → conn.ssl = true) :
    SslOnly T (handleRead env command conn me w).out ↔
      SslOnly T w.out ∧ ∀ fd ∈ rawRead env command conn me w, ¬ T fd := by
  unfold handleRead rawRead
  cases h₁ : command.arg1 with
  | none => exact sslOnly_refused hT
  | some idStr =>
    by_cases hid : atoll idStr ≤ 0
    · have hmark : (receiptMarkRead env (atoll idStr) (w.client me).clientName w.db).1 = false := by
        simp [receiptMarkRead, hid]
      simp only [hid, if_true, hmark, Bool.false_eq_true, if_false]
      exact sslOnly_refused hT
    rcases hmark : receiptMarkRead env (atoll idStr) (w.client me).clientName w.db with ⟨ok, db⟩
    simp only [hid, if_false, hmark]
    cases ok with
    | false => exact sslOnly_refused hT
    | true =>
      simp only [if_true]
      rw [sslOnly_replyOk hT]
      exact sslOnly_others rfl

theorem handleStatus_ssl (hT : T conn.fd → conn.ssl = true) :
    SslOnly T (handleStatus command conn me w).out ↔
      SslOnly T w.out ∧ ∀ fd ∈ rawStatus command conn me w, ¬ T fd := by
  unfold handleStatus rawStatus
  cases h₁ : command.arg1 with
  | none => exact sslOnly_refused hT
  | some word =>
    simp only [Option.bind_some]
    cases hstatus : parseStatus word with
    | none => exact sslOnly_refused hT
    | some status =>
      let reg := w.reg.modifyClient me fun client => { client with status }
      have hkeep : rosterOf reg w.conns = rosterOf w.reg w.conns :=
        rosterOf_modifyClient fun _ => ⟨rfl, rfl, rfl⟩
      have hroom : (reg.clients me).currentRoom = (w.client me).currentRoom :=
        congrFun (congrArg Roster.location hkeep) me
      change SslOnly T (match (reg.clients me).currentRoom with
        | none => World.replyOk conn okStatusSet { w with reg }
        | some room => if (w.client me).status = status then _ else
          World.notice room (reg.clients me).clientName word conn.fd _).out ↔ _
      rw [hroom]
      unfold roomOthers
      cases hcur : (w.client me).currentRoom with
      | none =>
        simp only [ite_self]
        rw [sslOnly_replyOk hT]
        simp
      | some room =>
        simp only
        split_ifs
        · rw [sslOnly_replyOk hT]
          simp
        · rw [sslOnly_notice, sslOnly_replyOk hT, ← broadcastFds_congr hkeep]
          rfl

theorem handleTyping_ssl (hT : T conn.fd → conn.ssl = true) :
    SslOnly T (handleTyping env conn me w).out ↔
      SslOnly T w.out ∧ ∀ fd ∈ rawTyping env conn me w, ¬ T fd := by
  unfold handleTyping rawTyping roomOthers
  cases hcur : (w.client me).currentRoom with
  | none =>
    rw [ite_self]
    exact sslOnly_refused hT
  | some room =>
    simp only
    split_ifs
    · rw [sslOnly_replyOk hT, sslOnly_broadcast]
    · rw [sslOnly_replyOk hT]
      simp

theorem handleStopTyping_ssl (hT : T conn.fd → conn.ssl = true) :
    SslOnly T (handleStopTyping conn me w).out ↔
      SslOnly T w.out ∧ ∀ fd ∈ roomOthers conn me w, ¬ T fd := by
  unfold handleStopTyping
  simp only
  rw [sslOnly_replyOk hT]
  exact sslOnly_others rfl

theorem clientInRoom_eq (hfind : (findClient (some text) w.reg).2 = some c) :
    clientInRoom w room text = if (w.client c).currentRoom = some room then some c else none := by
  simp [clientInRoom, hfind, Option.filter]

theorem handlePromote_ssl (hT : T conn.fd → conn.ssl = true) :
    SslOnly T (handlePromote command conn me w).out ↔
      SslOnly T w.out ∧ ∀ fd ∈ rawPromote command me w, ¬ T fd := by
  unfold handlePromote rawPromote
  cases hcur : (w.client me).currentRoom with
  | none => exact sslOnly_refused hT
  | some room =>
    cases h₁ : command.arg1 with
    | none =>
      simp only
      split_ifs <;> exact sslOnly_refused hT
    | some name =>
      by_cases hadmin : (w.room room).adminClient = some me
      · simp only [hadmin, ne_eq, not_true, if_false, if_true]
        cases hfind : (findClient (some name) w.reg).2 with
        | none =>
          simp only [clientInRoom, hfind, Option.filter_none]
          exact sslOnly_refused hT
        | some target =>
          rw [clientInRoom_eq hfind]
          by_cases hin : (w.client target).currentRoom = some room
          · simp only [hin, not_true, if_false, if_true]
            rw [sslOnly_notice, sslOnly_rawSend, and_assoc, List.forall_mem_singleton,
              List.forall_mem_cons]
            simp only [rawSend_eq, emit_reg, broadcastFds_setAdmin]
          · simp only [hin, not_false_eq_true, if_true, if_false]
            exact sslOnly_refused hT
      · simp only [hadmin, ne_eq, not_false_eq_true, if_true, if_false]
        exact sslOnly_refused hT

theorem handleBan_ssl (hT : T conn.fd → conn.ssl = true) :
    SslOnly T (handleBan env command conn me w).out ↔
      SslOnly T w.out ∧ ∀ fd ∈ rawBan env command me w, ¬ T fd := by
  unfold handleBan rawBan
  cases hcur : (w.client me).currentRoom with
  | none => exact sslOnly_refused hT
  | some room =>
    cases h₁ : command.arg1 with
    | none =>
      simp only
      split_ifs <;> exact sslOnly_refused hT
    | some name =>
      by_cases hperm : permissionCheck env (w.room room).roomName (w.client me).clientName .ban
          w.db
      · by_cases hsql : env.sql .banAdd = .done
        · simp only [hperm, hsql, banAdd, Bool.not_true, Bool.false_eq_true, if_false, and_self,
            if_true]
          rw [sslOnly_replyOk hT]
          unfold evictBanned
          simp only
          cases hfind : (findClient (some name) w.reg).2 with
          | none => simp [clientInRoom, hfind]
          | some banned =>
            rw [clientInRoom_eq hfind]
            by_cases hin : (w.client banned).currentRoom = some room
            · have hin' : (w.reg.clients banned).currentRoom = some room := hin
              simp only [World.client, hin', if_true]
              rw [sslOnly_rawSend]
              rfl
            · have hin' : ¬ (w.reg.clients banned).currentRoom = some room := hin
              simp [World.client, hin']
        · simp only [hperm, hsql, banAdd, Bool.not_true, Bool.false_eq_true, if_false, and_false]
          exact sslOnly_refused hT
      · simp only [hperm, Bool.not_false, if_true, Bool.false_eq_true, false_and, if_false]
        exact sslOnly_refused hT

theorem handleInvite_ssl (hT : T conn.fd → conn.ssl = true) :
    SslOnly T (handleInvite env command conn me w).out ↔
      SslOnly T w.out ∧ ∀ fd ∈ rawInvite env command me w, ¬ T fd := by
  unfold handleInvite rawInvite
  cases hcur : (w.client me).currentRoom with
  | none => exact sslOnly_refused hT
  | some room =>
    cases h₁ : command.arg1 with
    | none =>
      simp only
      split_ifs <;> exact sslOnly_refused hT
    | some name =>
      by_cases hperm : permissionCheck env (w.room room).roomName (w.client me).clientName .invite
          w.db
      · by_cases huser : dbUserExists env name w.db
        · by_cases hsql : env.sql .inviteCreate = .done
          · simp only [hperm, huser, hsql, inviteCreate, Bool.not_true, Bool.false_eq_true,
              if_false, and_self, if_true, replyOk_eq, reply_eq, emit_reg]
            cases hfind : (findClient (some name) w.reg).2 with
            | none =>
              refine (sslOnly_replyOk hT).trans ?_
              simp
            | some invitee =>
              simp only
              rw [sslOnly_rawSend]
              exact and_congr (sslOnly_replyOk hT) Iff.rfl
          · simp only [hperm, huser, hsql, inviteCreate, Bool.not_true, Bool.false_eq_true,
              if_false, and_false]
            exact sslOnly_refused hT
        · simp only [hperm, huser, Bool.not_true, Bool.not_false, if_true, Bool.false_eq_true,
            false_and, and_false, if_false]
          exact sslOnly_refused hT
      · simp only [hperm, Bool.not_false, if_true, Bool.false_eq_true, false_and, if_false]
        exact sslOnly_refused hT

theorem handleLeave_ssl (hT : T conn.fd → conn.ssl = true)
    (hfd : (w.reg.clients me).socketFd = conn.fd) :
    SslOnly T (handleLeave conn me w).out ↔
      SslOnly T w.out ∧ ∀ fd ∈ rawLeave conn me w, ¬ T fd := by
  unfold handleLeave rawLeave
  cases hcur : (w.client me).currentRoom with
  | none => exact sslOnly_refused hT
  | some room =>
    by_cases hm : me ∈ (w.reg.rooms room).members
    · obtain ⟨reg, hleave⟩ := roomRemoveMember_ok hm
      simp only [World.room, hm, if_true, hleave]
      rw [sslOnly_notice, sslOnly_replyOk hT]
      refine and_congr_right fun _ => forall_congr' fun fd => imp_congr_left ?_
      obtain rfl : reg = (roomRemoveMember (some room) (some me) w.reg).2 := by rw [hleave]
      exact mem_broadcastFds_leave hfd
    · simp only [World.room, hm, if_false, roomRemoveMember]
      exact sslOnly_refused hT

theorem handleKick_ssl (hT : T conn.fd → conn.ssl = true) :
    SslOnly T (handleKick command conn me w).out ↔
      SslOnly T w.out ∧ ∀ fd ∈ rawKick command me w, ¬ T fd := by
  unfold handleKick rawKick
  cases hcur : (w.client me).currentRoom with
  | none => exact sslOnly_refused hT
  | some room =>
    cases h₁ : command.arg1 with
    | none =>
      simp only
      split_ifs <;> exact sslOnly_refused hT
    | some name =>
      by_cases hadmin : (w.room room).adminClient = some me
      · by_cases hself : name = (w.client me).clientName
        · simp only [hadmin, ← hself, ne_eq, not_true, and_false, if_true, if_false]
          exact sslOnly_refused hT
        · simp only [hadmin, hself, ne_eq, not_true, not_false_eq_true, and_self, if_true,
            if_false]
          cases hfind : (findClient (some name) w.reg).2 with
          | none =>
            simp only [clientInRoom, hfind, Option.filter_none]
            exact sslOnly_refused hT
          | some target =>
            rw [clientInRoom_eq hfind]
            by_cases hin : (w.client target).currentRoom = some room
            · simp only [hin, not_true, if_false, if_true]
              by_cases hm : target ∈ (w.reg.rooms room).members
              · obtain ⟨reg, hleave⟩ := roomRemoveMember_ok hm
                simp only [World.room, hm, if_true, hleave]
                rw [sslOnly_replyOk hT, sslOnly_notice, sslOnly_rawSend, and_assoc,
                  List.forall_mem_singleton, List.forall_mem_cons]
                refine and_congr_right fun _ => and_congr_right fun _ =>
                  forall_congr' fun fd => imp_congr_left ?_
                obtain rfl : reg = (roomRemoveMember (some room) (some target) w.reg).2 := by
                  rw [hleave]
                exact mem_broadcastFds_leave rfl
              · simp only [World.room, hm, if_false, roomRemoveMember]
                exact sslOnly_refused hT
            · simp only [hin, not_false_eq_true, if_true, if_false]
              exact sslOnly_refused hT
      · simp only [hadmin, ne_eq, not_false_eq_true, if_true, false_and, if_false]
        exact sslOnly_refused hT

theorem leaveLastRoom_ssl (hfd : (w.reg.clients me).socketFd = conn.fd) :
    SslOnly T (leaveLastRoom conn me w).out ↔
      SslOnly T w.out ∧ ∀ fd ∈ roomOthers conn me w, ¬ T fd := by
  unfold leaveLastRoom roomOthers
  cases hcur : (w.client me).currentRoom with
  | none => simp
  | some room =>
    simp only
    rw [sslOnly_notice]
    exact and_congr_right fun _ => forall_congr' fun fd =>
      imp_congr_left (mem_broadcastFds_leave hfd)

theorem handleLogout_ssl (hT : T conn.fd → conn.ssl = true)
    (hfd : (w.reg.clients me).socketFd = conn.fd) :
    SslOnly T (handleLogout conn me w).out ↔
      SslOnly T w.out ∧ ∀ fd ∈ roomOthers conn me w, ¬ T fd :=
  (sslOnly_replyOk hT).trans (leaveLastRoom_ssl hfd)

theorem handleLogoutAll_ssl (hT : T conn.fd → conn.ssl = true)
    (hfd : (w.reg.clients me).socketFd = conn.fd) :
    SslOnly T (handleLogoutAll env conn me w).out ↔
      SslOnly T w.out ∧ ∀ fd ∈ roomOthers conn me w, ¬ T fd :=
  (sslOnly_replyOk hT).trans (leaveLastRoom_ssl hfd)

theorem welcome_ssl (hT : T conn.fd → conn.ssl = true)
    (hhist : (reg'.rooms room).history = (w.room room).history)
    (hothers : ∀ fd, fd ∈ broadcastFds room conn.fd reg' ↔ fd ∈ broadcastFds room conn.fd w.reg) :
    SslOnly T (welcome conn me room { w with reg := reg' }).out ↔
      SslOnly T w.out ∧ ∀ fd ∈ welcomeFds conn w room, ¬ T fd := by
  unfold welcome welcomeFds
  rw [sslOnly_notice, sslOnly_sendHistory, sslOnly_replyOk hT, and_assoc, List.forall_mem_append,
    ← hhist]
  exact and_congr_right fun _ => and_congr_right fun _ => forall_congr' fun fd =>
    imp_congr_left (hothers fd)

theorem mem_broadcastFds_move (hfd : (reg.clients me).socketFd = fd) {fd' : Fd} :
    fd' ∈ broadcastFds r fd (moveTo me room reg) ↔ fd' ∈ broadcastFds r fd reg := by
  unfold moveTo acceptLeave
  cases hcur : (reg.clients me).currentRoom with
  | none => exact mem_broadcastFds_enter hfd
  | some old =>
    have ha : (((roomRemoveMember (some old) (some me) reg).2.setCurrentRoom me none).clients
        me).socketFd = fd := by
      rw [setCurrentRoom_socketFd, roomRemoveMember_snd]
      exact hfd
    exact (mem_broadcastFds_enter ha).trans (mem_broadcastFds_leave hfd)

theorem handleJoin_ssl (hT : T conn.fd → conn.ssl = true)
    (hfd : (w.reg.clients me).socketFd = conn.fd) :
    SslOnly T (handleJoin command conn me w).out ↔
      SslOnly T w.out ∧ ∀ fd ∈ rawJoin command conn me w, ¬ T fd := by
  unfold rawJoin
  cases hjoin : roomJoined command me w with
  | none => exact sslOnly_silent ((handleJoin_of_not_joined hjoin).ssl hT)
  | some room =>
    rw [handleJoin_of_joined hjoin]
    exact welcome_ssl hT (moveTo_history _ _ _ _) fun fd => mem_broadcastFds_move hfd

theorem handleAccept_ssl (hT : T conn.fd → conn.ssl = true)
    (hfd : (w.reg.clients me).socketFd = conn.fd) :
    SslOnly T (handleAccept env command conn me w).out ↔
      SslOnly T w.out ∧ ∀ fd ∈ rawAccept env command conn me w, ¬ T fd := by
  unfold rawAccept
  cases haccept : roomAccepted env command me w with
  | none => exact sslOnly_silent ((handleAccept_of_not_accepted haccept).answers.ssl hT)
  | some room =>
    obtain ⟨db, heq⟩ := handleAccept_of_accepted conn haccept
    rw [heq]
    exact welcome_ssl (w := { w with db }) hT (moveTo_history _ _ _ _) fun fd =>
      mem_broadcastFds_move hfd

/-! ## Events -/

/-- A connection with an SSL object. -/
def Secured (w : World) (fd : Fd) : Prop := ∃ conn, w.conns.get fd = some conn ∧ conn.ssl = true

/-- A client's command reaches others by its raw sends only. -/
theorem dispatch_ssl (hT : T conn.fd → conn.ssl = true)
    (hfd : (w.reg.clients me).socketFd = conn.fd) :
    SslOnly T (dispatch env command conn me w).out ↔
      SslOnly T w.out ∧ ∀ fd ∈ rawOfCommand env command conn me w, ¬ T fd := by
  unfold dispatch rawOfCommand
  cases command.type with
  | invalid => exact sslOnly_refused hT
  | register => exact sslOnly_silent (handleRegister_answersOnce.answers.ssl hT)
  | login => exact sslOnly_silent (handleLogin_answersOnce.answers.ssl hT)
  | reconnect => exact sslOnly_silent (handleReconnect_answersOnce.answers.ssl hT)
  | create => exact sslOnly_silent (handleCreate_answersOnce.answers.ssl hT)
  | join => exact handleJoin_ssl hT hfd
  | leave => exact handleLeave_ssl hT hfd
  | kick => exact handleKick_ssl hT
  | promote => exact handlePromote_ssl hT
  | msg => exact handleMsg_ssl hT
  | edit => exact handleEdit_ssl hT
  | delete => exact handleDelete_ssl hT
  | history => exact sslOnly_silent (handleHistory_ssl hT)
  | pm => exact handlePm_ssl hT
  | rooms => exact sslOnly_silent (sslOnly_reply hT)
  | status => exact handleStatus_ssl hT
  | who => exact sslOnly_silent (handleWho_answersOnce.answers.ssl hT)
  | logout => exact handleLogout_ssl hT hfd
  | logoutAll => exact handleLogoutAll_ssl hT hfd
  | sessions => exact sslOnly_silent (sslOnly_reply hT)
  | revokeSession => exact sslOnly_silent (handleRevokeSession_answersOnce.answers.ssl hT)
  | read => exact handleRead_ssl hT
  | typing => exact handleTyping_ssl hT
  | stopTyping => exact handleStopTyping_ssl hT
  | block => exact sslOnly_silent (handleBlock_answersOnce.answers.ssl hT)
  | unblock => exact sslOnly_silent (handleUnblock_answersOnce.answers.ssl hT)
  | mute => exact sslOnly_silent (handleMute_answersOnce.answers.ssl hT)
  | unmute => exact sslOnly_silent (handleUnmute_answersOnce.answers.ssl hT)
  | ban => exact handleBan_ssl hT
  | demote => exact sslOnly_silent (handleDemote_answersOnce.answers.ssl hT)
  | createPrivate => exact sslOnly_silent (handleCreatePrivate_answersOnce.answers.ssl hT)
  | invite => exact handleInvite_ssl hT
  | accept => exact handleAccept_ssl hT hfd
  | decline => exact sslOnly_silent (handleDecline_answersOnce.answers.ssl hT)

theorem processLine_ssl (hT : T conn.fd → conn.ssl = true)
    (hfd : ∀ me, conn.me = some me → (w.reg.clients me).socketFd = conn.fd) :
    SslOnly T (processLine env conn text w).1.out ↔ SslOnly T w.out ∧
      ∀ fd ∈ (match conn.me with
        | none => []
        | some me => rawOfCommand env (parseLine text) conn me w), ¬ T fd := by
  have hinvalid {me : ClientPtr} (ht : (parseLine text).type = .invalid) :
      rawOfCommand env (parseLine text) conn me w = [] := by
    rw [rawOfCommand, ht]
  unfold processLine
  simp only
  cases hme : conn.me with
  | none =>
    refine sslOnly_silent ?_
    split_ifs
    · exact sslOnly_reply hT
    · exact sslOnly_reply hT
    · exact dispatchAnonymous_answersOnce.answers.ssl hT
  | some me =>
    split_ifs with hhealth hready
    · simp only [hinvalid hhealth.1]
      exact sslOnly_silent (sslOnly_reply hT)
    · simp only [hinvalid hready.1]
      exact sslOnly_silent (sslOnly_reply hT)
    · exact dispatch_ssl hT (hfd me hme)

/--
A step from a reachable state sends to TLS connections through their SSL
objects only, exactly if none of them is among the raw recipients of the event.
-/
theorem step_ssl (hs : w.roster.Sound) (e : Event) :
    SslOnly (Secured w) (step w (env, e)).out ↔ ∀ fd ∈ rawFds env w e, ¬ Secured w fd := by
  have hnil : SslOnly (Secured w) ([] : List Output) := fun _ h => absurd h List.not_mem_nil
  have hT : ∀ {fd conn}, w.conns.get fd = some conn → Secured w conn.fd → conn.ssl = true := by
    rintro fd conn hconn ⟨conn', hconn', hssl⟩
    rw [w.conns.fd_eq _ _ hconn, hconn] at hconn'
    exact Option.some.inj hconn' ▸ hssl
  have hfd : ∀ {fd conn me}, w.conns.get fd = some conn → conn.me = some me →
      (w.reg.clients me).socketFd = conn.fd := by
    intro fd conn me hconn hme
    rw [w.conns.fd_eq _ _ hconn]
    exact (hs.linked.mem_of_conn (roster_conns_eq_some.mpr ⟨conn, hconn, hme⟩)).2
  cases e with
  | accept fd ssl =>
    simp only [step, handleEvent, rawFds]
    by_cases hopen : fd < 0 ∨ w.conns.get fd ≠ none
    · rw [if_pos hopen]
      simpa using hnil
    · rw [if_neg hopen]
      have hfree : ¬ Secured w fd := by
        rintro ⟨conn, hconn, -⟩
        exact (not_or.mp hopen).2 (by simp [hconn])
      refine iff_of_true ?_ (by simp)
      refine sslOnly_rawSend.mpr ⟨hnil, fun fd' hfd' => ?_⟩
      rwa [List.mem_singleton.mp hfd']
  | line fd text =>
    simp only [step, handleEvent, rawFds]
    cases hconn : w.conns.get fd with
    | none => simpa using hnil
    | some conn =>
      exact (processLine_ssl (w := { w with out := [], broadcasts := [] }) (hT hconn) fun _ =>
        hfd hconn).trans
        (and_iff_right hnil)
  | disconnect fd =>
    simp only [step, handleEvent, rawFds]
    cases hconn : w.conns.get fd with
    | none => simpa using hnil
    | some conn =>
      simp only [disconnectCleanup]
      cases hme : conn.me with
      | none => simpa using hnil
      | some me =>
        exact (leaveLastRoom_ssl (w := { w with out := [], broadcasts := [] })
          (hfd hconn hme)).trans
          (and_iff_right hnil)
  | cleanup => simpa [step, handleEvent, rawFds] using hnil
  | shutdown => exact sslOnly_rawSend.trans (and_iff_right hnil)

/--
In every reachable state, an event sends to TLS connections through their SSL
objects only, exactly if none of them is among its raw recipients.
-/
theorem tlsOnly_iff (cfg : Config) (db : Database) (start : ℤ) (inputs : List (Env × Event))
    (env : Env) (e : Event) :
    let w := run step (World.init cfg db start) inputs
    SslOnly (Secured w) (step w (env, e)).out ↔ ∀ fd ∈ rawFds env w e, ¬ Secured w fd :=
  step_ssl run_sound e

/-- Two TLS connections in one room. -/
def securedRun : List (Env × Event) :=
  [(.calm 0 0 "t0".toList, .accept 4 true),
   (.calm 0 0 "t0".toList, .accept 5 true),
   (.calm 0 0 "t0".toList, .line 4 "REGISTER alice pw".toList),
   (.calm 0 1 "t1".toList, .line 5 "REGISTER bob pw".toList),
   (.calm 0 0 "t0".toList, .line 4 "CREATE lounge".toList),
   (.calm 0 0 "t0".toList, .line 5 "JOIN lounge".toList)]

/-- A message to the room reaches the other connection in the clear. -/
theorem securedRun_msg_raw :
    let w := run step (World.init ⟨4, 4, 4, 10⟩ .empty 0) securedRun
    ¬ SslOnly (Secured w) (step w (.calm 0 0 "t0".toList, .line 4 "MSG hi".toList)).out := by
  intro w h
  have hsent := h ⟨5, .rawSend, ⟨"MSG 1 alice hi\n".toList, some (.live 0)⟩⟩ (by decide +kernel)
    ⟨⟨5, some 1, true⟩, by decide +kernel, rfl⟩
  cases hsent

end ChatServer
