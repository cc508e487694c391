import ChatServer.Presence.Notices
import ChatServer.Transport.Tls

/-! # Who is written to

Every line is for the connection whose line is answered, for one that is being
accepted, or for one that is logged in. So no closed descriptor is written to,
and whoever has not logged in sees nothing but answers.
-/

namespace ChatServer

open Library World Roster

variable {env : Env} {w : World} {command : Cmd} {conn : Conn} {me c : ClientPtr}
  {r room : RoomPtr} {text name user action : Text} {fd x : Fd} {fds : List Fd} {line : Line}
  {lines : List Line} {outs outs' : List Output} {e : Event} {o : Output}

/-- Lines through an SSL object are for the connection itself. -/
def OwnSsl (conn : Conn) (outs : List Output) : Prop :=
  ∀ o ∈ outs, o.channel = .sslWrite → o.fd = conn.fd

theorem ownSsl_append : OwnSsl conn (outs ++ outs') ↔ OwnSsl conn outs ∧ OwnSsl conn outs' :=
  List.forall_mem_append

theorem ownSsl_connSend : OwnSsl conn (w.connSend conn lines).out ↔ OwnSsl conn w.out := by
  rw [connSend_eq, emit_out, ownSsl_append]
  refine and_iff_left fun o ho _ => ?_
  obtain ⟨line, -, rfl⟩ := List.mem_map.mp ho
  rfl

theorem ownSsl_rawSend : OwnSsl conn (w.rawSend fds lines).out ↔ OwnSsl conn w.out := by
  rw [rawSend_eq, emit_out, ownSsl_append]
  refine and_iff_left fun o ho hssl => ?_
  obtain ⟨fd, -, ho⟩ := List.mem_flatMap.mp ho
  obtain ⟨line, -, rfl⟩ := List.mem_map.mp ho
  cases hssl

theorem mem_rawSend (h : o ∈ (w.rawSend fds lines).out) : o ∈ w.out ∨ o.fd ∈ fds := by
  rw [rawSend_eq, emit_out, List.mem_append] at h
  refine h.imp_right fun ho => ?_
  obtain ⟨fd, hfd, ho⟩ := List.mem_flatMap.mp ho
  obtain ⟨line, -, rfl⟩ := List.mem_map.mp ho
  exact hfd

theorem ownSsl_reply : OwnSsl conn (w.reply conn text).out ↔ OwnSsl conn w.out := ownSsl_connSend

theorem ownSsl_replyOk : OwnSsl conn (w.replyOk conn text).out ↔ OwnSsl conn w.out :=
  ownSsl_connSend

theorem ownSsl_replyErr : OwnSsl conn (w.replyErr conn text).out ↔ OwnSsl conn w.out :=
  ownSsl_connSend

theorem ownSsl_broadcast : OwnSsl conn (w.broadcast r line fd).out ↔ OwnSsl conn w.out :=
  ownSsl_rawSend

theorem ownSsl_notice : OwnSsl conn (w.notice r user action fd).out ↔ OwnSsl conn w.out :=
  ownSsl_rawSend

theorem ownSsl_sendHistory : OwnSsl conn (w.sendHistory r fd).out ↔ OwnSsl conn w.out :=
  ownSsl_rawSend

theorem Answers.ownSsl (h : Answers conn outs outs') (ho : OwnSsl conn outs) :
    OwnSsl conn outs' := by
  obtain ⟨text, rfl⟩ := h
  refine ownSsl_append.mpr ⟨ho, fun o ho _ => ?_⟩
  rw [List.mem_singleton.mp ho]

theorem Replies.ownSsl (h : Replies conn outs outs') (ho : OwnSsl conn outs) :
    OwnSsl conn outs' := by
  obtain ⟨texts, rfl⟩ := h
  refine ownSsl_append.mpr ⟨ho, fun o ho _ => ?_⟩
  obtain ⟨text, -, rfl⟩ := List.mem_map.mp ho
  rfl

section Commands

variable (ho : OwnSsl conn w.out)

include ho

theorem leaveLastRoom_ownSsl : OwnSsl conn (leaveLastRoom conn me w).out := by
  unfold leaveLastRoom
  split
  · exact ho
  · exact ownSsl_notice.mpr ho

theorem welcome_ownSsl : OwnSsl conn (welcome conn me room w).out :=
  ownSsl_notice.mpr (ownSsl_sendHistory.mpr (ownSsl_replyOk.mpr ho))

theorem handleJoin_ownSsl : OwnSsl conn (handleJoin command conn me w).out := by
  cases hjoin : roomJoined command me w with
  | none => exact (handleJoin_of_not_joined hjoin).ownSsl ho
  | some room =>
    rw [handleJoin_of_joined hjoin]
    exact welcome_ownSsl ho

theorem handleAccept_ownSsl : OwnSsl conn (handleAccept env command conn me w).out := by
  cases haccept : roomAccepted env command me w with
  | none => exact (handleAccept_of_not_accepted haccept).answers.ownSsl ho
  | some room =>
    obtain ⟨db, heq⟩ := handleAccept_of_accepted conn haccept
    rw [heq]
    exact welcome_ownSsl ho

theorem handleLeave_ownSsl : OwnSsl conn (handleLeave conn me w).out := by
  unfold handleLeave
  split
  · exact ownSsl_replyErr.mpr ho
  · split
    · exact ownSsl_notice.mpr (ownSsl_replyOk.mpr ho)
    · exact ownSsl_replyErr.mpr ho

theorem handleKick_ownSsl : OwnSsl conn (handleKick command conn me w).out := by
  unfold handleKick
  split
  · exact ownSsl_replyErr.mpr ho
  · split_ifs
    · exact ownSsl_replyErr.mpr ho
    · split
      · exact ownSsl_replyErr.mpr ho
      · split_ifs
        · exact ownSsl_replyErr.mpr ho
        · split
          · exact ownSsl_replyErr.mpr ho
          · split_ifs
            · exact ownSsl_replyErr.mpr ho
            · split
              · exact ownSsl_replyOk.mpr (ownSsl_notice.mpr (ownSsl_rawSend.mpr ho))
              · exact ownSsl_replyErr.mpr ho

theorem handlePromote_ownSsl : OwnSsl conn (handlePromote command conn me w).out := by
  unfold handlePromote
  split
  · exact ownSsl_replyErr.mpr ho
  · split_ifs
    · exact ownSsl_replyErr.mpr ho
    · split
      · exact ownSsl_replyErr.mpr ho
      · split
        · exact ownSsl_replyErr.mpr ho
        · split_ifs
          · exact ownSsl_replyErr.mpr ho
          · exact ownSsl_notice.mpr (ownSsl_rawSend.mpr ho)

theorem handleMsg_ownSsl : OwnSsl conn (handleMsg env command conn me w).out := by
  unfold handleMsg
  split
  · exact ownSsl_replyErr.mpr ho
  · split
    · exact ownSsl_replyErr.mpr ho
    · split
      · exact ownSsl_replyErr.mpr ho
      · split_ifs
        · exact ownSsl_replyErr.mpr ho
        · exact ownSsl_replyOk.mpr (ownSsl_broadcast.mpr ho)

theorem handleEdit_ownSsl : OwnSsl conn (handleEdit env command conn me w).out := by
  unfold handleEdit
  split
  · exact ownSsl_replyErr.mpr ho
  · split
    · simp only
      split_ifs
      · exact ownSsl_replyErr.mpr ho
      · exact ownSsl_replyErr.mpr ho
      · split
        · exact ownSsl_replyOk.mpr (ownSsl_broadcast.mpr ho)
        · exact ownSsl_replyErr.mpr ho
    · exact ownSsl_replyErr.mpr ho

theorem handleDelete_ownSsl : OwnSsl conn (handleDelete env command conn me w).out := by
  unfold handleDelete
  split
  · exact ownSsl_replyErr.mpr ho
  · split
    · exact ownSsl_replyErr.mpr ho
    · simp only
      split_ifs
      · exact ownSsl_replyErr.mpr ho
      · split
        · exact ownSsl_replyOk.mpr (ownSsl_broadcast.mpr ho)
        · exact ownSsl_replyErr.mpr ho

theorem handleHistory_ownSsl : OwnSsl conn (handleHistory env command conn me w).out := by
  unfold handleHistory
  split
  · exact ownSsl_replyErr.mpr ho
  · simp only
    split
    · exact ownSsl_replyErr.mpr ho
    · exact ownSsl_connSend.mpr ho

theorem handlePm_ownSsl : OwnSsl conn (handlePm env command conn me w).out := by
  unfold handlePm
  split
  · exact ownSsl_replyErr.mpr ho
  · split
    · exact ownSsl_replyErr.mpr ho
    · split_ifs
      · exact ownSsl_replyErr.mpr ho
      · split
        · exact ownSsl_replyErr.mpr ho
        · split
          · exact ownSsl_replyErr.mpr ho
          · exact ownSsl_replyOk.mpr (ownSsl_rawSend.mpr ho)

theorem handleRead_ownSsl : OwnSsl conn (handleRead env command conn me w).out := by
  unfold handleRead
  split
  · exact ownSsl_replyErr.mpr ho
  · simp only
    split_ifs
    · exact ownSsl_replyErr.mpr ho
    · split
      · refine ownSsl_replyOk.mpr ?_
        split
        · exact ho
        · exact ownSsl_broadcast.mpr ho
      · exact ownSsl_replyErr.mpr ho

theorem handleStatus_ownSsl : OwnSsl conn (handleStatus command conn me w).out := by
  unfold handleStatus
  split
  · exact ownSsl_replyErr.mpr ho
  · split
    · exact ownSsl_replyErr.mpr ho
    · simp only
      split
      · exact ownSsl_replyOk.mpr ho
      · split_ifs
        · exact ownSsl_replyOk.mpr ho
        · exact ownSsl_notice.mpr (ownSsl_replyOk.mpr ho)

theorem handleTyping_ownSsl : OwnSsl conn (handleTyping env conn me w).out := by
  unfold handleTyping
  split
  · exact ownSsl_replyErr.mpr ho
  · refine ownSsl_replyOk.mpr ?_
    split_ifs
    · exact ownSsl_broadcast.mpr ho
    · exact ho

theorem handleStopTyping_ownSsl : OwnSsl conn (handleStopTyping conn me w).out := by
  unfold handleStopTyping
  refine ownSsl_replyOk.mpr ?_
  split
  · exact ho
  · exact ownSsl_broadcast.mpr ho

theorem evictBanned_ownSsl : OwnSsl conn (evictBanned room text w).out := by
  unfold evictBanned
  split
  · exact ho
  · split_ifs
    · exact ownSsl_rawSend.mpr ho
    · exact ho

theorem handleBan_ownSsl : OwnSsl conn (handleBan env command conn me w).out := by
  unfold handleBan
  split
  · exact ownSsl_replyErr.mpr ho
  · simp only
    split_ifs
    · exact ownSsl_replyErr.mpr ho
    · split
      · exact ownSsl_replyErr.mpr ho
      · split
        · exact ownSsl_replyOk.mpr (evictBanned_ownSsl ho)
        · exact ownSsl_replyErr.mpr ho

theorem handleInvite_ownSsl : OwnSsl conn (handleInvite env command conn me w).out := by
  unfold handleInvite
  split
  · exact ownSsl_replyErr.mpr ho
  · simp only
    split_ifs
    · exact ownSsl_replyErr.mpr ho
    · split
      · exact ownSsl_replyErr.mpr ho
      · split_ifs
        · exact ownSsl_replyErr.mpr ho
        · split
          · split
            · exact ownSsl_replyOk.mpr ho
            · exact ownSsl_rawSend.mpr (ownSsl_replyOk.mpr ho)
          · exact ownSsl_replyErr.mpr ho

theorem dispatch_ownSsl : OwnSsl conn (dispatch env command conn me w).out := by
  unfold dispatch
  cases command.type with
  | invalid => exact ownSsl_replyErr.mpr ho
  | register => exact handleRegister_answersOnce.answers.ownSsl ho
  | login => exact handleLogin_answersOnce.answers.ownSsl ho
  | reconnect => exact handleReconnect_answersOnce.answers.ownSsl ho
  | create => exact handleCreate_answersOnce.answers.ownSsl ho
  | join => exact handleJoin_ownSsl ho
  | leave => exact handleLeave_ownSsl ho
  | kick => exact handleKick_ownSsl ho
  | promote => exact handlePromote_ownSsl ho
  | msg => exact handleMsg_ownSsl ho
  | edit => exact handleEdit_ownSsl ho
  | delete => exact handleDelete_ownSsl ho
  | history => exact handleHistory_ownSsl ho
  | pm => exact handlePm_ownSsl ho
  | rooms => exact ownSsl_reply.mpr ho
  | status => exact handleStatus_ownSsl ho
  | who => exact handleWho_answersOnce.answers.ownSsl ho
  | logout => exact ownSsl_replyOk.mpr (leaveLastRoom_ownSsl ho)
  | logoutAll => exact ownSsl_replyOk.mpr (leaveLastRoom_ownSsl ho)
  | sessions => exact ownSsl_reply.mpr ho
  | revokeSession => exact handleRevokeSession_answersOnce.answers.ownSsl ho
  | read => exact handleRead_ownSsl ho
  | typing => exact handleTyping_ownSsl ho
  | stopTyping => exact handleStopTyping_ownSsl ho
  | block => exact handleBlock_answersOnce.answers.ownSsl ho
  | unblock => exact handleUnblock_answersOnce.answers.ownSsl ho
  | mute => exact handleMute_answersOnce.answers.ownSsl ho
  | unmute => exact handleUnmute_answersOnce.answers.ownSsl ho
  | ban => exact handleBan_ownSsl ho
  | demote => exact handleDemote_answersOnce.answers.ownSsl ho
  | createPrivate => exact handleCreatePrivate_answersOnce.answers.ownSsl ho
  | invite => exact handleInvite_ownSsl ho
  | accept => exact handleAccept_ownSsl ho
  | decline => exact handleDecline_answersOnce.answers.ownSsl ho

theorem processLine_ownSsl : OwnSsl conn (processLine env conn text w).1.out := by
  unfold processLine
  simp only
  split_ifs
  · exact ownSsl_reply.mpr ho
  · exact ownSsl_reply.mpr ho
  · split
    · exact dispatchAnonymous_answersOnce.answers.ownSsl ho
    · exact dispatch_ownSsl ho

end Commands

/-- A connection with a client. -/
def LoggedIn (w : World) (fd : Fd) : Prop := ∃ c, w.roster.conns fd = some (some c)

/-- The members of a room are logged in, each once; a room that is not live has none. -/
theorem members_logged (hs : w.roster.Sound) (hv : w.roster.Vacant) (r : RoomPtr) :
    (w.room r).members.Nodup ∧
      ∀ c ∈ (w.room r).members, w.roster.conns (w.client c).socketFd = some (some c) := by
  by_cases hlive : r ∈ w.reg.roomList
  · exact ⟨hs.seated.members_nodup hlive, fun c hc =>
      hs.linked.conn_of_mem (hs.seated.of_member hlive hc).1⟩
  · have hnil : (w.room r).members = [] := hv r hlive
    simp [hnil]

theorem loggedIn_of_broadcast (hs : w.roster.Sound) (hv : w.roster.Vacant)
    (h : x ∈ broadcastFds r fd w.reg) : x ≠ fd ∧ LoggedIn w x := by
  obtain ⟨hne, c, hc, rfl⟩ := mem_broadcastFds.mp h
  exact ⟨hne, c, (members_logged hs hv r).2 c hc⟩

theorem loggedIn_of_found (hs : w.roster.Sound)
    (h : c ∈ (findClient (some name) w.reg).2) : LoggedIn w (w.client c).socketFd :=
  ⟨c, hs.linked.conn_of_mem (findClient_some h).1⟩

theorem loggedIn_of_inRoom (hs : w.roster.Sound) (h : c ∈ clientInRoom w room name) :
    LoggedIn w (w.client c).socketFd :=
  loggedIn_of_found hs (Option.mem_filter_iff.mp h).1

theorem loggedIn_of_others (hs : w.roster.Sound) (hv : w.roster.Vacant)
    (h : x ∈ roomOthers conn me w) : x ≠ conn.fd ∧ LoggedIn w x := by
  unfold roomOthers at h
  split at h
  · cases h
  · exact loggedIn_of_broadcast hs hv h

theorem loggedIn_of_welcome (hs : w.roster.Sound) (hv : w.roster.Vacant)
    (hme : LoggedIn w conn.fd) (h : x ∈ welcomeFds conn w room) : LoggedIn w x := by
  rw [welcomeFds, List.mem_append] at h
  rcases h with h | h
  · split_ifs at h
    · cases h
    · rwa [List.mem_singleton.mp h]
  · exact (loggedIn_of_broadcast hs hv h).2

theorem loggedIn_of_rawKick (hs : w.roster.Sound) (hv : w.roster.Vacant)
    (h : x ∈ rawKick command me w) : LoggedIn w x := by
  unfold rawKick at h
  split at h
  · split_ifs at h
    · split at h
      · cases h
      · rename_i target hfind
        split_ifs at h
        · rcases List.mem_cons.mp h with rfl | h
          · exact loggedIn_of_inRoom hs hfind
          · exact (loggedIn_of_broadcast hs hv h).2
        · cases h
    · cases h
  · cases h

theorem loggedIn_of_rawPromote (hs : w.roster.Sound) (hv : w.roster.Vacant)
    (h : x ∈ rawPromote command me w) : LoggedIn w x := by
  unfold rawPromote at h
  split at h
  · split_ifs at h
    · split at h
      · cases h
      · rename_i target hfind
        rcases List.mem_cons.mp h with rfl | h
        · exact loggedIn_of_inRoom hs hfind
        · exact (loggedIn_of_broadcast hs hv h).2
    · cases h
  · cases h

theorem loggedIn_of_rawBan (hs : w.roster.Sound) (h : x ∈ rawBan env command me w) :
    LoggedIn w x := by
  unfold rawBan at h
  split at h
  · split_ifs at h
    · obtain ⟨c, hc, rfl⟩ := List.mem_map.mp h
      exact loggedIn_of_inRoom hs (Option.mem_toList.mp hc)
    · cases h
  · cases h

theorem loggedIn_of_rawInvite (hs : w.roster.Sound) (h : x ∈ rawInvite env command me w) :
    LoggedIn w x := by
  unfold rawInvite at h
  split at h
  · split_ifs at h
    · obtain ⟨c, hc, rfl⟩ := List.mem_map.mp h
      exact loggedIn_of_found hs (Option.mem_toList.mp hc)
    · cases h
  · cases h

theorem loggedIn_of_rawPm (hs : w.roster.Sound) (h : x ∈ rawPm env command me w) :
    LoggedIn w x := by
  unfold rawPm at h
  split at h
  · cases h
  · split_ifs at h
    · obtain ⟨c, hc, rfl⟩ := List.mem_map.mp h
      exact loggedIn_of_found hs (Option.mem_toList.mp hc)
    · cases h

theorem loggedIn_of_rawEdit (hs : w.roster.Sound) (hv : w.roster.Vacant)
    (h : x ∈ rawEdit env command me w) : LoggedIn w x := by
  unfold rawEdit at h
  split at h
  · split_ifs at h
    · exact (loggedIn_of_broadcast hs hv h).2
    · cases h
  · cases h

theorem loggedIn_of_rawDelete (hs : w.roster.Sound) (hv : w.roster.Vacant)
    (h : x ∈ rawDelete env command me w) : LoggedIn w x := by
  unfold rawDelete at h
  split at h
  · split_ifs at h
    · exact (loggedIn_of_broadcast hs hv h).2
    · cases h
  · cases h

theorem loggedIn_of_test {p : Prop} [Decidable p] (hs : w.roster.Sound) (hv : w.roster.Vacant)
    (h : x ∈ if p then roomOthers conn me w else []) : LoggedIn w x := by
  split_ifs at h
  · exact (loggedIn_of_others hs hv h).2
  · cases h

theorem loggedIn_of_command (hs : w.roster.Sound) (hv : w.roster.Vacant)
    (hme : LoggedIn w conn.fd) (h : x ∈ rawOfCommand env command conn me w) : LoggedIn w x := by
  unfold rawOfCommand at h
  cases ht : command.type with
  | join =>
    simp only [ht, rawJoin] at h
    split at h
    · cases h
    · exact loggedIn_of_welcome hs hv hme h
  | accept =>
    simp only [ht, rawAccept] at h
    split at h
    · cases h
    · exact loggedIn_of_welcome hs hv hme h
  | leave =>
    simp only [ht, rawLeave] at h
    split at h
    · cases h
    · split_ifs at h
      · exact (loggedIn_of_broadcast hs hv h).2
      · cases h
  | kick => exact loggedIn_of_rawKick hs hv (by simpa only [ht] using h)
  | promote => exact loggedIn_of_rawPromote hs hv (by simpa only [ht] using h)
  | msg => exact loggedIn_of_test hs hv (by simpa only [ht, rawMsg] using h)
  | edit => exact loggedIn_of_rawEdit hs hv (by simpa only [ht] using h)
  | delete => exact loggedIn_of_rawDelete hs hv (by simpa only [ht] using h)
  | pm => exact loggedIn_of_rawPm hs (by simpa only [ht] using h)
  | status =>
    simp only [ht, rawStatus] at h
    split at h
    · cases h
    · split_ifs at h
      · cases h
      · exact (loggedIn_of_others hs hv h).2
  | read =>
    simp only [ht, rawRead] at h
    split at h
    · cases h
    · exact loggedIn_of_test hs hv h
  | typing => exact loggedIn_of_test hs hv (by simpa only [ht, rawTyping] using h)
  | logout | logoutAll | stopTyping =>
    exact (loggedIn_of_others hs hv (by simpa only [ht] using h)).2
  | ban => exact loggedIn_of_rawBan hs (by simpa only [ht] using h)
  | invite => exact loggedIn_of_rawInvite hs (by simpa only [ht] using h)
  | _ => simp [ht] at h

/-- The connections an event may write to. -/
inductive Addressee (w : World) : Event → Fd → Prop
  | greeted {fd : Fd} {ssl : Bool} (h : w.conns.get fd = none) : Addressee w (.accept fd ssl) fd
  | answered {fd : Fd} {text : Text} {conn : Conn} (h : w.conns.get fd = some conn) :
      Addressee w (.line fd text) fd
  | loggedIn {e : Event} {fd : Fd} (h : LoggedIn w fd) (hne : e ≠ .disconnect fd) : Addressee w e fd

theorem mem_leaveLastRoom_out (hfd : (w.reg.clients me).socketFd = conn.fd)
    (h : o ∈ (leaveLastRoom conn me w).out) : o ∈ w.out ∨ o.fd ∈ roomOthers conn me w := by
  unfold leaveLastRoom at h
  unfold roomOthers
  cases hcur : (w.client me).currentRoom with
  | none => exact .inl (by simpa only [hcur] using h)
  | some room =>
    simp only [hcur] at h ⊢
    exact (mem_rawSend h).imp_right (mem_broadcastFds_leave hfd).mp

theorem eq_or_mem_of_ssl (hown : OwnSsl conn outs)
    (hraw : ∀ x, x ≠ conn.fd → ((∀ fd ∈ fds, fd ≠ x) → SslOnly (· = x) outs)) (ho : o ∈ outs) :
    o.fd = conn.fd ∨ o.fd ∈ fds := by
  by_contra! h
  have hssl : o.channel = .sslWrite :=
    hraw o.fd h.1 (fun fd hfd heq => h.2 (heq ▸ hfd)) o ho rfl
  exact h.1 (hown o ho hssl)

theorem line_addressee (hs : w.roster.Sound) (hv : w.roster.Vacant) {conn : Conn} {text : Text}
    (hconn : w.conns.get conn.fd = some conn)
    (ho : o ∈ (step w (env, .line conn.fd text)).out) :
    Addressee w (.line conn.fd text) o.fd := by
  simp only [step, handleEvent, hconn] at ho
  have hnil {T : Fd → Prop} : SslOnly T ({ w with out := [], broadcasts := [] } : World).out :=
    fun _ h => absurd h List.not_mem_nil
  have hlogged {me : ClientPtr} (hme : conn.me = some me) :
      w.roster.conns conn.fd = some (some me) := roster_conns_eq_some.mpr ⟨conn, hconn, hme⟩
  rcases eq_or_mem_of_ssl (processLine_ownSsl fun _ h => absurd h List.not_mem_nil)
    (fun x hx hraw => (processLine_ssl (w := { w with out := [], broadcasts := [] })
      (fun h => absurd h.symm hx)
      fun me hme => (hs.linked.mem_of_conn (hlogged hme)).2).mpr ⟨hnil, hraw⟩) ho with
    hown | hmem
  · rw [hown]
    exact .answered hconn
  · cases hme : conn.me with
    | none => simp [hme] at hmem
    | some me =>
      simp only [hme] at hmem
      exact .loggedIn (loggedIn_of_command hs hv ⟨me, hlogged hme⟩ hmem) (by simp)

theorem disconnect_addressee (hs : w.roster.Sound) (hv : w.roster.Vacant) {conn : Conn}
    (hconn : w.conns.get conn.fd = some conn)
    (ho : o ∈ (step w (env, .disconnect conn.fd)).out) :
    Addressee w (.disconnect conn.fd) o.fd := by
  simp only [step, handleEvent, hconn, disconnectCleanup] at ho
  cases hme : conn.me with
  | none => simp [hme] at ho
  | some me =>
    simp only [hme] at ho
    have haddress : (w.reg.clients me).socketFd = conn.fd :=
      (hs.linked.mem_of_conn (roster_conns_eq_some.mpr ⟨conn, hconn, hme⟩)).2
    obtain ho | hmem := mem_leaveLastRoom_out (w :=
        { w with out := [], broadcasts := [] }) haddress ho
    · cases ho
    · obtain ⟨hne, hlogged⟩ := loggedIn_of_others hs hv hmem
      exact .loggedIn hlogged fun h => hne (Event.disconnect.inj h).symm

/-- A line for a descriptor is written only for an addressee. -/
theorem step_addressee (hs : w.roster.Sound) (hv : w.roster.Vacant) (e : Event)
    (ho : o ∈ (step w (env, e)).out) : Addressee w e o.fd := by
  cases e with
  | accept fd ssl =>
    simp only [step, handleEvent] at ho
    by_cases hopen : fd < 0 ∨ w.conns.get fd ≠ none
    · rw [if_pos hopen] at ho
      cases ho
    · rw [if_neg hopen] at ho
      obtain ho | ho := mem_rawSend ho
      · cases ho
      · rw [List.mem_singleton.mp ho]
        exact .greeted (not_not.mp (not_or.mp hopen).2)
  | line fd text =>
    cases hconn : w.conns.get fd with
    | none => simp [step, handleEvent, hconn] at ho
    | some conn =>
      obtain rfl := w.conns.fd_eq _ _ hconn
      exact line_addressee hs hv hconn ho
  | disconnect fd =>
    cases hconn : w.conns.get fd with
    | none => simp [step, handleEvent, hconn] at ho
    | some conn =>
      obtain rfl := w.conns.fd_eq _ _ hconn
      exact disconnect_addressee hs hv hconn ho
  | cleanup => cases ho
  | shutdown =>
    obtain ho | ho := mem_rawSend ho
    · cases ho
    · obtain ⟨c, hc, hfd⟩ := List.mem_map.mp ho
      exact .loggedIn ⟨c, hfd ▸ hs.linked.conn_of_mem hc⟩ (by simp)

/--
In every reachable state, a line is written only to the connection that is
being accepted, to the open connection whose line is answered, or to a
connection that is logged in and is not the one that has hung up.
-/
theorem run_addressee (cfg : Config) (db : Database) (start : ℤ) (inputs : List (Env × Event))
    (env : Env) (e : Event) :
    let w := run step (World.init cfg db start) inputs
    ∀ o ∈ (step w (env, e)).out, Addressee w e o.fd :=
  fun _ ho => step_addressee run_sound run_vacant e ho

end ChatServer
