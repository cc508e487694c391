import ChatServer.Membership.Entry

/-! # One answer to a line

A client that sends commands one after the other matches each reply to a
request by counting the lines that answer. Broadcasts and lines of a history
are not answers. PROMOTE answers the promoted client only, a JOIN that cannot
leave the old room answers twice, and so does the BAN of oneself.
-/

namespace ChatServer

open Library World

/-- A line that is neither an answer nor a notice. -/
def Quiet (bytes : Text) : Prop := ¬ IsStatus bytes ∧ ¬ replyNotice <+: bytes

/-- Only quiet lines are sent. -/
def Murmurs (w w' : World) : Prop :=
  ∃ outs, (∀ o ∈ outs, Quiet o.line.bytes) ∧ w'.out = w.out ++ outs

/-- One answer is sent to the connection itself, and otherwise quiet lines. -/
def Reports (conn : Conn) (w w' : World) : Prop :=
  ∃ before text after, IsStatus text ∧ (∀ o ∈ before ++ after, Quiet o.line.bytes) ∧
    w'.out = w.out ++ before ++ ⟨conn.fd, conn.channel, { bytes := text }⟩ :: after

instance : DecidablePred IsStatus := fun _ => by unfold IsStatus; infer_instance

/-- How many of the lines sent to a descriptor answer a command. -/
def answersTo (fd : Fd) (w : World) : ℕ :=
  w.out.countP fun o => o.fd = fd ∧ IsStatus o.line.bytes

variable {env : Env} {w w' w'' : World} {command : Cmd} {conn : Conn} {me : ClientPtr} {fd : Fd}
  {text code : Text} {room : RoomPtr} {line : Line}

/-! ## Lines that answer, and lines that do not -/

/-- The first two letters tell the first word of an untruncated line from other words. -/
theorem not_prefix_snprintf {word rest other : Text} (hlen : 2 ≤ word.length)
    (hlen' : 2 ≤ other.length) (hword : other.take 2 ≠ word.take 2) :
    ¬ other <+: snprintf maxLineLen (word ++ rest) := by
  intro hpre
  have htake : other.take 2 = (word ++ rest).take 2 := by
    rw [List.prefix_iff_eq_take.mp hpre, snprintf, List.take_take, List.take_take]
    congr 1
    simp only [maxLineLen]
    omega
  exact hword (htake.trans (List.take_append_of_le_length hlen))

theorem not_isStatus_snprintf {word rest : Text} (hlen : 2 ≤ word.length)
    (hword : ∀ status ∈ statusWords, status.take 2 ≠ word.take 2) :
    ¬ IsStatus (snprintf maxLineLen (word ++ rest)) := by
  rintro ⟨status, hstatus, hpre⟩
  have hlen' : 2 ≤ status.length := (by decide : ∀ s ∈ statusWords, 2 ≤ s.length) status hstatus
  exact not_prefix_snprintf hlen hlen' (hword status hstatus) hpre

theorem quiet_snprintf {word rest : Text} (hlen : 2 ≤ word.length)
    (hword : ∀ other ∈ replyNotice :: statusWords, other.take 2 ≠ word.take 2) :
    Quiet (snprintf maxLineLen (word ++ rest)) :=
  ⟨not_isStatus_snprintf hlen fun status hstatus => hword status (List.mem_cons_of_mem _ hstatus),
    not_prefix_snprintf hlen (by decide) (hword _ List.mem_cons_self)⟩

theorem lineOf_cons (word : Text) (words : List Text) :
    ∃ rest, lineOf (word :: words) = word ++ rest := by
  cases words with
  | nil => exact ⟨_, by rw [lineOf, List.intercalate_singleton]⟩
  | cons word' words =>
    exact ⟨_, by rw [lineOf, List.intercalate_cons_cons, List.append_assoc, List.append_assoc]⟩

theorem not_isStatus_lineOf {word : Text} {words : List Text} (hlen : 2 ≤ word.length)
    (hword : ∀ status ∈ statusWords, status.take 2 ≠ word.take 2) :
    ¬ IsStatus (snprintf maxLineLen (lineOf (word :: words))) := by
  obtain ⟨rest, hrest⟩ := lineOf_cons word words
  rw [hrest]
  exact not_isStatus_snprintf hlen hword

theorem quiet_lineOf {word : Text} {words : List Text} (hlen : 2 ≤ word.length)
    (hword : ∀ other ∈ replyNotice :: statusWords, other.take 2 ≠ word.take 2) :
    Quiet (snprintf maxLineLen (lineOf (word :: words))) := by
  obtain ⟨rest, hrest⟩ := lineOf_cons word words
  rw [hrest]
  exact quiet_snprintf hlen hword

theorem not_isStatus_replayLine (m : Message) : ¬ IsStatus (replayLine m) := by
  unfold replayLine
  split_ifs
  · exact not_isStatus_lineOf (by decide) (by decide)
  · exact not_isStatus_lineOf (by decide) (by decide)

theorem not_isStatus_historyLines {r : Room} : ∀ l ∈ historyLines r, ¬ IsStatus l.bytes := by
  intro l hl
  unfold historyLines at hl
  split_ifs at hl
  · cases hl
  · rcases List.mem_append.mp hl with hl | hl
    · rcases List.mem_append.mp hl with hl | hl
      · rw [List.mem_singleton.mp hl]
        exact not_isStatus_lineOf (by decide) (by decide)
      · obtain ⟨m, -, rfl⟩ := List.mem_map.mp hl
        exact not_isStatus_replayLine m
    · rw [List.mem_singleton.mp hl]
      exact not_isStatus_lineOf (by decide) (by decide)

/-! ## Reports -/

theorem reports_of_answersOnce (h : AnswersOnce conn w.out w'.out) : Reports conn w w' := by
  obtain ⟨text, hstatus, hout⟩ := h
  exact ⟨[], text, [], hstatus, by simp, by simpa using hout⟩

theorem reports_err : Reports conn w (w.replyErr conn code) :=
  reports_of_answersOnce answersOnce_err

theorem reports_ok : Reports conn w (w.replyOk conn code) := reports_of_answersOnce answersOnce_ok

theorem reports_connSend_cons {lines : List Line} (hfirst : IsStatus text)
    (hrest : ∀ l ∈ lines, Quiet l.bytes) :
    Reports conn w (w.connSend conn ({ bytes := text } :: lines)) := by
  refine ⟨[], text, lines.map (⟨conn.fd, conn.channel, ·⟩), hfirst, fun o ho => ?_, by simp⟩
  obtain ⟨l, hl, rfl⟩ := List.mem_map.mp ho
  exact hrest l hl

theorem Murmurs.refl : Murmurs w w := ⟨[], by simp, by simp⟩

theorem murmurs_rawSend {fds : List Fd} (h : Quiet line.bytes) (hout : w'.out = w.out) :
    Murmurs w (w'.rawSend fds [line]) := by
  refine ⟨_, fun o ho => ?_, congrArg (· ++ _) hout⟩
  obtain ⟨fd', -, rfl⟩ : ∃ fd' ∈ fds, o = ⟨fd', .rawSend, line⟩ := by simpa using ho
  exact h

theorem murmurs_broadcast {fd' : Fd} (h : Quiet line.bytes) (hout : w'.out = w.out) :
    Murmurs w (w'.broadcast room line fd') := murmurs_rawSend h hout

theorem Murmurs.reports (h : Murmurs w w') (h' : Reports conn w' w'') : Reports conn w w'' := by
  obtain ⟨outs, houts, hout⟩ := h
  obtain ⟨before, text, after, hstatus, hquiet, hout'⟩ := h'
  refine ⟨outs ++ before, text, after, hstatus, ?_, by simp [hout', hout]⟩
  rw [List.append_assoc]
  exact List.forall_mem_append.mpr ⟨houts, hquiet⟩

theorem Reports.murmurs (h : Reports conn w w') (h' : Murmurs w' w'') : Reports conn w w'' := by
  obtain ⟨before, text, after, hstatus, hquiet, hout⟩ := h
  obtain ⟨outs, houts, hout'⟩ := h'
  refine ⟨before, text, after ++ outs, hstatus, ?_, by simp [hout', hout]⟩
  rw [← List.append_assoc]
  exact List.forall_mem_append.mpr ⟨hquiet, houts⟩

theorem Murmurs.ok (h : Murmurs w w') : Reports conn w (w'.replyOk conn code) :=
  h.reports reports_ok

/-! ## Counting the answers -/

theorem answersTo_emit (outs : List Output) : answersTo fd (w.emit outs) =
    answersTo fd w + outs.countP fun o => o.fd = fd ∧ IsStatus o.line.bytes :=
  List.countP_append

theorem countP_eq_zero_of_quiet {outs : List Output} (h : ∀ o ∈ outs, ¬ IsStatus o.line.bytes) :
    (outs.countP fun o => o.fd = fd ∧ IsStatus o.line.bytes) = 0 := by
  refine List.countP_eq_zero.mpr fun o ho => ?_
  simp [h o ho]

theorem answersTo_of_reports (h : Reports conn w w') :
    answersTo conn.fd w' = answersTo conn.fd w + 1 := by
  obtain ⟨before, text, after, hstatus, hquiet, hout⟩ := h
  have hbefore := @countP_eq_zero_of_quiet conn.fd before
    fun o ho => (hquiet o (List.mem_append_left _ ho)).1
  have hafter := @countP_eq_zero_of_quiet conn.fd after
    fun o ho => (hquiet o (List.mem_append_right _ ho)).1
  simp only [answersTo, hout, List.countP_append, List.countP_cons, hbefore, hafter]
  simp [hstatus]

theorem answersTo_of_answersOnce (h : AnswersOnce conn w.out w'.out) :
    answersTo conn.fd w' = answersTo conn.fd w + 1 :=
  answersTo_of_reports (reports_of_answersOnce h)

theorem answersTo_err : answersTo conn.fd (w.replyErr conn code) = answersTo conn.fd w + 1 :=
  answersTo_of_reports reports_err

theorem answersTo_ok : answersTo conn.fd (w.replyOk conn code) = answersTo conn.fd w + 1 :=
  answersTo_of_reports reports_ok

theorem answersTo_emit_quiet {outs : List Output} (h : ∀ o ∈ outs, ¬ IsStatus o.line.bytes) :
    answersTo fd (w.emit outs) = answersTo fd w := by
  rw [answersTo_emit, countP_eq_zero_of_quiet h, Nat.add_zero]

theorem answersTo_rawSend_of_ne {fd' : Fd} (h : fd' ≠ fd) :
    answersTo fd (w.rawSend [fd'] [line]) = answersTo fd w := by
  rw [rawSend_eq, answersTo_emit]
  simp [h]

theorem answersTo_rawSend_self (h : IsStatus line.bytes) :
    answersTo fd (w.rawSend [fd] [line]) = answersTo fd w + 1 := by
  rw [rawSend_eq, answersTo_emit]
  simp [h]

theorem answersTo_notice {user action : Text} {fd' : Fd} :
    answersTo fd (w.notice room user action fd') = answersTo fd w := by
  rw [World.notice, broadcast_eq]
  refine answersTo_emit_quiet fun o ho => ?_
  obtain ⟨fd'', -, rfl⟩ := List.mem_map.mp ho
  exact not_isStatus_lineOf (by decide) (by decide)

theorem answersTo_sendHistory {fd' : Fd} :
    answersTo fd (w.sendHistory room fd') = answersTo fd w := by
  rw [sendHistory_eq]
  refine answersTo_emit_quiet fun o ho => ?_
  obtain ⟨l, hl, rfl⟩ := List.mem_map.mp ho
  exact not_isStatus_historyLines l hl

theorem answersTo_welcome :
    answersTo conn.fd (welcome conn me room w) = answersTo conn.fd w + 1 :=
  answersTo_notice.trans (answersTo_sendHistory.trans answersTo_ok)

/-! ## Commands that answer once -/

theorem handleMsg_reports : Reports conn w (handleMsg env command conn me w) := by
  unfold handleMsg
  split
  · exact reports_err
  · split
    · exact reports_err
    · split
      · exact reports_err
      · split_ifs
        · exact reports_err
        · simp only
          refine Murmurs.ok (murmurs_broadcast ?_ rfl)
          split
          · exact quiet_lineOf (by decide) (by decide)
          · exact quiet_lineOf (by decide) (by decide)

theorem handleEdit_reports : Reports conn w (handleEdit env command conn me w) := by
  unfold handleEdit
  split
  · exact reports_err
  · split
    · split_ifs
      · exact reports_err
      · simp only
        split_ifs
        · exact reports_err
        · split
          · exact Murmurs.ok (murmurs_broadcast (quiet_lineOf (by decide) (by decide)) rfl)
          · exact reports_err
    · exact reports_err

theorem handleDelete_reports : Reports conn w (handleDelete env command conn me w) := by
  unfold handleDelete
  split
  · exact reports_err
  · split
    · exact reports_err
    · simp only
      split_ifs
      · exact reports_err
      · split
        · exact Murmurs.ok (murmurs_broadcast (quiet_lineOf (by decide) (by decide)) rfl)
        · exact reports_err

theorem handleHistory_reports : Reports conn w (handleHistory env command conn me w) := by
  unfold handleHistory
  split
  · exact reports_err
  · simp only
    split
    · exact reports_err
    · refine reports_connSend_cons (isStatus_lineOf (by decide)) fun l hl => ?_
      rcases List.mem_append.mp hl with hl | hl
      · obtain ⟨m, -, rfl⟩ := List.mem_map.mp hl
        exact quiet_lineOf (by decide) (by decide)
      · rw [List.mem_singleton.mp hl]
        exact quiet_lineOf (by decide) (by decide)

theorem handlePm_reports : Reports conn w (handlePm env command conn me w) := by
  unfold handlePm
  split
  · exact reports_err
  · split
    · exact reports_err
    · split_ifs
      · exact reports_err
      · split
        · exact reports_err
        · split
          · exact reports_err
          · exact Murmurs.ok (murmurs_rawSend (quiet_lineOf (by decide) (by decide)) rfl)

theorem handleRead_reports : Reports conn w (handleRead env command conn me w) := by
  unfold handleRead
  split
  · exact reports_err
  · simp only
    split_ifs
    · exact reports_err
    · split
      · refine Murmurs.ok ?_
        split
        · exact .refl
        · exact murmurs_broadcast (quiet_lineOf (by decide) (by decide)) rfl
      · exact reports_err

theorem handleTyping_reports : Reports conn w (handleTyping env conn me w) := by
  unfold handleTyping
  split
  · exact reports_err
  · refine Murmurs.ok ?_
    split_ifs
    · exact murmurs_broadcast (quiet_lineOf (by decide) (by decide)) rfl
    · exact .refl

theorem handleStopTyping_reports : Reports conn w (handleStopTyping conn me w) := by
  unfold handleStopTyping
  refine Murmurs.ok ?_
  split
  · exact .refl
  · exact murmurs_broadcast (quiet_lineOf (by decide) (by decide)) rfl

theorem handleInvite_reports : Reports conn w (handleInvite env command conn me w) := by
  unfold handleInvite
  split
  · exact reports_err
  · simp only
    split_ifs
    · exact reports_err
    · split
      · exact reports_err
      · split_ifs
        · exact reports_err
        · split
          · split
            · exact reports_ok
            · exact Reports.murmurs reports_ok
                (murmurs_rawSend (quiet_lineOf (by decide) (by decide)) rfl)
          · exact reports_err

theorem handleRooms_reports : Reports conn w (handleRooms command conn w) :=
  reports_of_answersOnce ⟨_, isStatus_listReply (by decide), rfl⟩

theorem handleSessions_reports : Reports conn w (handleSessions env conn me w) :=
  reports_of_answersOnce ⟨_, isStatus_sessionsReply, rfl⟩

/-- The commands whose only lines are one answer and quiet lines. -/
def CmdType.Plain (type : CmdType) : Prop :=
  type ∉ [.join, .leave, .kick, .promote, .status, .logout, .logoutAll, .ban, .accept]

theorem dispatch_reports (ht : command.type.Plain) :
    Reports conn w (dispatch env command conn me w) := by
  unfold dispatch
  split
  · exact reports_err
  · exact reports_of_answersOnce handleRegister_answersOnce
  · exact reports_of_answersOnce handleLogin_answersOnce
  · exact reports_of_answersOnce handleReconnect_answersOnce
  · exact reports_of_answersOnce handleCreate_answersOnce
  · simp_all [CmdType.Plain]
  · simp_all [CmdType.Plain]
  · simp_all [CmdType.Plain]
  · simp_all [CmdType.Plain]
  · exact handleMsg_reports
  · exact handleEdit_reports
  · exact handleDelete_reports
  · exact handleHistory_reports
  · exact handlePm_reports
  · exact handleRooms_reports
  · simp_all [CmdType.Plain]
  · exact reports_of_answersOnce handleWho_answersOnce
  · simp_all [CmdType.Plain]
  · simp_all [CmdType.Plain]
  · exact handleSessions_reports
  · exact reports_of_answersOnce handleRevokeSession_answersOnce
  · exact handleRead_reports
  · exact handleTyping_reports
  · exact handleStopTyping_reports
  · exact reports_of_answersOnce handleBlock_answersOnce
  · exact reports_of_answersOnce handleUnblock_answersOnce
  · exact reports_of_answersOnce handleMute_answersOnce
  · exact reports_of_answersOnce handleUnmute_answersOnce
  · simp_all [CmdType.Plain]
  · exact reports_of_answersOnce handleDemote_answersOnce
  · exact reports_of_answersOnce handleCreatePrivate_answersOnce
  · exact handleInvite_reports
  · simp_all [CmdType.Plain]
  · exact reports_of_answersOnce handleDecline_answersOnce

theorem handleStatus_answersTo :
    answersTo conn.fd (handleStatus command conn me w) = answersTo conn.fd w + 1 := by
  unfold handleStatus
  split
  · exact answersTo_err
  · split
    · exact answersTo_err
    · simp only
      split
      · exact answersTo_ok
      · split_ifs
        · exact answersTo_ok
        · exact answersTo_notice.trans answersTo_ok

theorem leaveLastRoom_answersTo :
    answersTo fd (leaveLastRoom conn me w) = answersTo fd w := by
  unfold leaveLastRoom
  split
  · rfl
  · exact answersTo_notice

theorem handleLogout_answersTo :
    answersTo conn.fd (handleLogout conn me w) = answersTo conn.fd w + 1 :=
  answersTo_ok.trans (congrArg (· + 1) leaveLastRoom_answersTo)

theorem handleLogoutAll_answersTo :
    answersTo conn.fd (handleLogoutAll env conn me w) = answersTo conn.fd w + 1 :=
  answersTo_ok.trans (congrArg (· + 1) leaveLastRoom_answersTo)

theorem handleLeave_answersTo :
    answersTo conn.fd (handleLeave conn me w) = answersTo conn.fd w + 1 := by
  unfold handleLeave
  split
  · exact answersTo_err
  · split
    · exact answersTo_notice.trans answersTo_ok
    · exact answersTo_err

theorem handleAccept_answersTo :
    answersTo conn.fd (handleAccept env command conn me w) = answersTo conn.fd w + 1 := by
  cases haccept : roomAccepted env command me w with
  | none =>
    exact answersTo_of_answersOnce (handleAccept_of_not_accepted haccept)
  | some room =>
    obtain ⟨db, heq⟩ := handleAccept_of_accepted conn haccept
    rw [heq]
    exact answersTo_welcome

/-! ## Commands that need not answer once -/

/-- A client hands its room to another client that is in it. -/
structure PromotesOther (command : Cmd) (me : ClientPtr) (w : World) (room : RoomPtr)
    (name : Text) (target : ClientPtr) : Prop where
  inside : (w.client me).currentRoom = some room
  admin : (w.room room).adminClient = some me
  arg : command.arg1 = some name
  found : (findClient (some name) w.reg).2 = some target
  seated : (w.client target).currentRoom = some room
  other : target ≠ me

/-- A client asks for a room while it is in one that does not list it. -/
structure JoinsUnseated (command : Cmd) (me : ClientPtr) (w : World) (old : RoomPtr) : Prop where
  arg : command.arg1 ≠ none
  inside : (w.client me).currentRoom = some old
  unlisted : me ∉ (w.room old).members

/-- A client that may ban bans the name by which it is found itself. -/
structure BansSelf (env : Env) (command : Cmd) (me : ClientPtr) (w : World) (room : RoomPtr)
    (name : Text) : Prop where
  inside : (w.client me).currentRoom = some room
  allowed : permissionCheck env (w.room room).roomName (w.client me).clientName .ban w.db
  arg : command.arg1 = some name
  recorded : (banAdd env (w.room room).roomName (w.client me).clientName name w.db).1
  found : (findClient (some name) w.reg).2 = some me

/-- The commands that are answered twice, or not at all. -/
inductive Misanswered (env : Env) (command : Cmd) (me : ClientPtr) (w : World) : Prop
  | promote {room : RoomPtr} {name : Text} {target : ClientPtr} (ht : command.type = .promote)
      (h : PromotesOther command me w room name target)
  | join {old : RoomPtr} (ht : command.type = .join) (h : JoinsUnseated command me w old)
  | ban {room : RoomPtr} {name : Text} (ht : command.type = .ban)
      (h : BansSelf env command me w room name)

theorem Misanswered.type (h : Misanswered env command me w) :
    command.type ∈ [CmdType.promote, .join, .ban] := by
  cases h with
  | promote ht => simp [ht]
  | join ht => simp [ht]
  | ban ht => simp [ht]

theorem socketFd_eq_iff {c : ClientPtr} (hs : w.roster.Sound)
    (hconn : w.conns.get conn.fd = some conn) (hme : conn.me = some me)
    (hc : c ∈ w.reg.clientList) : (w.client c).socketFd = conn.fd ↔ c = me := by
  have hfd : w.roster.conns conn.fd = some (some me) := roster_conns_eq_some.mpr ⟨conn, hconn, hme⟩
  constructor
  · intro heq
    have hc' : w.roster.conns (w.client c).socketFd = some (some c) := hs.linked.conn_of_mem hc
    rw [heq, hfd] at hc'
    exact (Option.some.inj (Option.some.inj hc')).symm
  · rintro rfl
    exact (hs.linked.mem_of_conn hfd).2

theorem handleKick_answersTo (hs : w.roster.Sound) (hconn : w.conns.get conn.fd = some conn)
    (hme : conn.me = some me) :
    answersTo conn.fd (handleKick command conn me w) = answersTo conn.fd w + 1 := by
  unfold handleKick
  split
  · exact answersTo_err
  · split_ifs
    · exact answersTo_err
    · split
      · exact answersTo_err
      · split_ifs with hself
        · exact answersTo_err
        · split
          · exact answersTo_err
          · rename_i target htarget
            obtain ⟨hlisted, hname⟩ := findClient_some htarget
            have hne : (w.client target).socketFd ≠ conn.fd := by
              rw [ne_eq, socketFd_eq_iff hs hconn hme hlisted]
              rintro rfl
              exact hself hname.symm
            split_ifs
            · exact answersTo_err
            · split
              · refine answersTo_ok.trans (congrArg (· + 1) ?_)
                exact answersTo_notice.trans (answersTo_rawSend_of_ne hne)
              · exact answersTo_err

theorem handlePromote_answersTo_iff (hs : w.roster.Sound)
    (hconn : w.conns.get conn.fd = some conn) (hme : conn.me = some me) :
    answersTo conn.fd (handlePromote command conn me w) = answersTo conn.fd w + 1 ↔
      ∀ room name target, ¬ PromotesOther command me w room name target := by
  unfold handlePromote
  split
  · rename_i hcur
    refine iff_of_true answersTo_err fun _ _ _ h => ?_
    rw [h.inside] at hcur
    cases hcur
  · rename_i room hcur
    have hroom {room' name target} (h : PromotesOther command me w room' name target) :
        room' = room := Option.some.inj (h.inside.symm.trans hcur)
    split_ifs with hadmin
    · refine iff_of_true answersTo_err fun room' _ _ h => ?_
      obtain rfl := hroom h
      exact hadmin h.admin
    · split
      · rename_i h₁
        refine iff_of_true answersTo_err fun _ _ _ h => ?_
        rw [h.arg] at h₁
        cases h₁
      · rename_i name h₁
        have hname {room' name' target} (h : PromotesOther command me w room' name' target) :
            name' = name := Option.some.inj (h.arg.symm.trans h₁)
        split
        · rename_i hfind
          refine iff_of_true answersTo_err fun _ _ _ h => ?_
          have hfound := h.found
          rw [hname h, hfind] at hfound
          cases hfound
        · rename_i target hfind
          have htarget {room' name' target'}
              (h : PromotesOther command me w room' name' target') : target' = target := by
            have hfound := h.found
            rw [hname h, hfind] at hfound
            exact (Option.some.inj hfound).symm
          split_ifs with hin
          · refine iff_of_true answersTo_err fun _ _ _ h => hin ?_
            rw [← htarget h, ← hroom h]
            exact h.seated
          · have hstatus : IsStatus (formatOkReply maxLineLen okPromoted) :=
              isStatus_lineOf (by decide)
            simp only
            rw [answersTo_notice]
            by_cases hself : target = me
            · have hfd := (socketFd_eq_iff hs hconn hme (findClient_some hfind).1).mpr hself
              rw [hfd]
              refine iff_of_true (answersTo_rawSend_self hstatus) fun _ _ _ h => ?_
              exact h.other ((htarget h).trans hself)
            · have hfd := (socketFd_eq_iff hs hconn hme (findClient_some hfind).1).not.mpr hself
              rw [answersTo_rawSend_of_ne hfd]
              refine iff_of_false (Nat.succ_ne_self _).symm fun h => ?_
              exact h room name target ⟨hcur, not_not.mp hadmin, h₁, hfind, not_not.mp hin, hself⟩

theorem joinLeave_answersTo_iff : answersTo conn.fd (joinLeave conn me w) = answersTo conn.fd w ↔
    ∀ old, (w.client me).currentRoom = some old → me ∈ (w.room old).members := by
  by_cases hseated : ∀ old, (w.client me).currentRoom = some old → me ∈ (w.room old).members
  · rw [joinLeave_of_seated conn hseated]
    exact iff_of_true rfl hseated
  · refine iff_of_false ?_ hseated
    simp only [not_forall] at hseated
    obtain ⟨old, hcur, hm⟩ := hseated
    have hm : me ∉ (w.reg.rooms old).members := hm
    have herr {code : Text} :
        answersTo conn.fd (w.replyErr conn code) ≠ answersTo conn.fd w := by
      rw [answersTo_err]
      exact Nat.succ_ne_self _
    simp only [joinLeave, hcur, roomRemoveMember, hm, if_false]
    exact herr

theorem handleJoin_answersTo {name : Text} (h₁ : command.arg1 = some name) :
    answersTo conn.fd (handleJoin command conn me w) =
      answersTo conn.fd (joinLeave conn me w) + 1 := by
  unfold handleJoin
  rw [h₁]
  simp only
  split
  · split
    · exact answersTo_welcome
    · exact answersTo_err
  · exact answersTo_err

theorem handleJoin_answersTo_iff :
    answersTo conn.fd (handleJoin command conn me w) = answersTo conn.fd w + 1 ↔
      ∀ old, ¬ JoinsUnseated command me w old := by
  cases h₁ : command.arg1 with
  | none =>
    rw [handleJoin, h₁]
    exact iff_of_true answersTo_err fun _ h => h.arg h₁
  | some name =>
    rw [handleJoin_answersTo h₁, Nat.add_right_cancel_iff, joinLeave_answersTo_iff]
    constructor
    · exact fun hseated old h => h.unlisted (hseated old h.inside)
    · exact fun h old hcur => not_not.mp fun hm => h old ⟨by simp [h₁], hcur, hm⟩

/-- The line to a banned client is an answer on its own connection. -/
theorem evictBanned_answersTo_iff {name : Text} (hs : w.roster.Sound)
    (hconn : w.conns.get conn.fd = some conn) (hme : conn.me = some me)
    (hcur : (w.client me).currentRoom = some room) :
    answersTo conn.fd (evictBanned room name w) = answersTo conn.fd w ↔
      (findClient (some name) w.reg).2 ≠ some me := by
  unfold evictBanned
  split
  · rename_i hfind
    exact iff_of_true rfl (by simp [hfind])
  · rename_i banned hfind
    rw [hfind, ne_eq, Option.some.injEq]
    have hfd := socketFd_eq_iff hs hconn hme (findClient_some hfind).1
    have hstatus : IsStatus (formatErrReply maxLineLen okBanned) := isStatus_lineOf (by decide)
    by_cases hself : banned = me
    · rw [hfd.mpr hself]
      subst hself
      rw [if_pos hcur]
      refine iff_of_false ?_ (not_not.mpr rfl)
      rw [answersTo_rawSend_self hstatus]
      exact Nat.succ_ne_self _
    · refine iff_of_true ?_ hself
      split_ifs
      · exact answersTo_rawSend_of_ne (hfd.not.mpr hself)
      · rfl

theorem handleBan_answersTo_iff (hs : w.roster.Sound) (hconn : w.conns.get conn.fd = some conn)
    (hme : conn.me = some me) :
    answersTo conn.fd (handleBan env command conn me w) = answersTo conn.fd w + 1 ↔
      ∀ room name, ¬ BansSelf env command me w room name := by
  unfold handleBan
  split
  · rename_i hcur
    refine iff_of_true answersTo_err fun _ _ h => ?_
    rw [h.inside] at hcur
    cases hcur
  · rename_i room hcur
    have hroom {room' name} (h : BansSelf env command me w room' name) : room' = room :=
      Option.some.inj (h.inside.symm.trans hcur)
    simp only
    split_ifs with hallowed
    · refine iff_of_true answersTo_err fun room' _ h => ?_
      obtain rfl := hroom h
      simp [h.allowed] at hallowed
    · split
      · rename_i h₁
        refine iff_of_true answersTo_err fun _ _ h => ?_
        rw [h.arg] at h₁
        cases h₁
      · rename_i name h₁
        have hname {room' name'} (h : BansSelf env command me w room' name') : name' = name :=
          Option.some.inj (h.arg.symm.trans h₁)
        split
        · rename_i db hban
          have hevict : answersTo conn.fd (evictBanned room name { w with db }) =
              answersTo conn.fd w ↔ (findClient (some name) w.reg).2 ≠ some me :=
            evictBanned_answersTo_iff hs hconn hme hcur
          rw [answersTo_ok, Nat.add_right_cancel_iff, hevict]
          constructor
          · rintro hfind room' name' h
            obtain rfl := hname h
            exact hfind h.found
          · intro h hfind
            exact h room name ⟨hcur, by simpa using hallowed, h₁, by rw [hban], hfind⟩
        · rename_i hban
          refine iff_of_true answersTo_err fun room' name' h => ?_
          obtain rfl := hroom h
          obtain rfl := hname h
          have hrecorded := h.recorded
          rw [hban] at hrecorded
          cases hrecorded

theorem Misanswered.congr (hreg : w'.reg = w.reg) (hdb : w'.db = w.db)
    (h : Misanswered env command me w) : Misanswered env command me w' := by
  obtain ⟨reg, db, typing, uptime, conns, out⟩ := w
  obtain ⟨reg', db', typing', uptime', conns', out'⟩ := w'
  obtain rfl : reg' = reg := hreg
  obtain rfl : db' = db := hdb
  cases h with
  | promote ht h => exact .promote ht ⟨h.inside, h.admin, h.arg, h.found, h.seated, h.other⟩
  | join ht h => exact .join ht ⟨h.arg, h.inside, h.unlisted⟩
  | ban ht h => exact .ban ht ⟨h.inside, h.allowed, h.arg, h.recorded, h.found⟩

/-! ## The answer to a line -/

theorem dispatch_answersTo_iff (hs : w.roster.Sound) (hconn : w.conns.get conn.fd = some conn)
    (hme : conn.me = some me) :
    answersTo conn.fd (dispatch env command conn me w) = answersTo conn.fd w + 1 ↔
      ¬ Misanswered env command me w := by
  by_cases hspecial : command.type ∈ [CmdType.promote, .join, .ban]
  · simp only [List.mem_cons, List.not_mem_nil, or_false] at hspecial
    rcases hspecial with ht | ht | ht
    · simp only [dispatch, ht]
      rw [handlePromote_answersTo_iff hs hconn hme]
      constructor
      · rintro h (⟨-, hp⟩ | ⟨ht', -⟩ | ⟨ht', -⟩)
        · exact h _ _ _ hp
        · rw [ht] at ht'; cases ht'
        · rw [ht] at ht'; cases ht'
      · exact fun h room name target hp => h (.promote ht hp)
    · simp only [dispatch, ht]
      rw [handleJoin_answersTo_iff]
      constructor
      · rintro h (⟨ht', -⟩ | ⟨-, hj⟩ | ⟨ht', -⟩)
        · rw [ht] at ht'; cases ht'
        · exact h _ hj
        · rw [ht] at ht'; cases ht'
      · exact fun h old hj => h (.join ht hj)
    · simp only [dispatch, ht]
      rw [handleBan_answersTo_iff hs hconn hme]
      constructor
      · rintro h (⟨ht', -⟩ | ⟨ht', -⟩ | ⟨-, hb⟩)
        · rw [ht] at ht'; cases ht'
        · rw [ht] at ht'; cases ht'
        · exact h _ _ hb
      · exact fun h room name hb => h (.ban ht hb)
  · refine iff_of_true ?_ fun h => hspecial h.type
    by_cases hplain : command.type.Plain
    · exact answersTo_of_reports (dispatch_reports hplain)
    · simp only [List.mem_cons, List.not_mem_nil, or_false, not_or] at hspecial
      simp only [CmdType.Plain, not_not, List.mem_cons, List.not_mem_nil, or_false, hspecial,
        false_or] at hplain
      rcases hplain with ht | ht | ht | ht | ht | ht
      · simp only [dispatch, ht]
        exact handleLeave_answersTo
      · simp only [dispatch, ht]
        exact handleKick_answersTo hs hconn hme
      · simp only [dispatch, ht]
        exact handleStatus_answersTo
      · simp only [dispatch, ht]
        exact handleLogout_answersTo
      · simp only [dispatch, ht]
        exact handleLogoutAll_answersTo
      · simp only [dispatch, ht]
        exact handleAccept_answersTo

/-- A line is dispatched, unless it is an invalid one that asks for the health of the server. -/
theorem processLine_cases (env : Env) (conn : Conn) (text : Text) (w : World) :
    ((parseLine text).type = .invalid ∧ (processLine env conn text w).1.reg = w.reg ∧
      AnswersOnce conn w.out (processLine env conn text w).1.out) ∨
    (processLine env conn text w).1 = match conn.me with
      | none => dispatchAnonymous env (parseLine text) conn w
      | some me => dispatch env (parseLine text) conn me w := by
  unfold processLine
  simp only
  split_ifs with hhealth hready
  · exact .inl ⟨hhealth.1, rfl, _, @isStatus_lineOf_append replyOk " HEALTH".toList _ (by decide),
      rfl⟩
  · exact .inl ⟨hready.1, rfl, _, isStatus_lineOf (by decide), rfl⟩
  · cases conn.me with
    | none => exact .inr rfl
    | some me => exact .inr rfl

theorem processLine_answersTo_iff (hs : w.roster.Sound) (hconn : w.conns.get conn.fd = some conn) :
    answersTo conn.fd (processLine env conn text w).1 = answersTo conn.fd w + 1 ↔
      ∀ me, conn.me = some me → ¬ Misanswered env (parseLine text) me w := by
  rcases processLine_cases env conn text w with ⟨ht, -, hanswer⟩ | heq
  · refine iff_of_true (answersTo_of_answersOnce hanswer) fun me _ h => ?_
    have ht' := h.type
    simp [ht] at ht'
  · rw [heq]
    split
    · rename_i hme
      exact iff_of_true (answersTo_of_answersOnce dispatchAnonymous_answersOnce) (by simp [hme])
    · rename_i me hme
      rw [dispatch_answersTo_iff hs hconn hme]
      simp [hme]

/--
In every reachable state a line is answered exactly once, unless it promotes
another client, joins a room from one that does not list the client, or bans
the client itself.
-/
theorem answered_once_iff (cfg : Config) (db : Database) (start : ℤ)
    (inputs : List (Env × Event)) (env : Env) (fd : Fd) (text : Text) (conn : Conn) :
    let w := run step (World.init cfg db start) inputs
    w.conns.get fd = some conn →
      (answersTo fd (step w (env, .line fd text)) = 1 ↔
        ∀ me, conn.me = some me → ¬ Misanswered env (parseLine text) me w) := by
  intro w hconn
  obtain rfl := w.conns.fd_eq _ _ hconn
  have hw : World.roster { w with out := [], broadcasts := [] } = w.roster := rfl
  have hcount : answersTo conn.fd (step w (env, .line conn.fd text)) = 1 ↔
      ∀ me, conn.me = some me → ¬ Misanswered env (parseLine text) me
        { w with out := [], broadcasts := [] } := by
    simp only [step, handleEvent, hconn]
    exact processLine_answersTo_iff (hw ▸ run_sound) hconn
  rw [hcount]
  exact forall₂_congr fun me _ => not_congr ⟨.congr rfl rfl, .congr rfl rfl⟩

/-! ## Answers to Alice -/

/-- Alice in her room with Bob. -/
def aliceAndBob : List (Env × Event) :=
  [(.calm 0 0 [], .accept 4 false),
   (.calm 0 0 "t0".toList, .line 4 "REGISTER alice pw".toList),
   (.calm 0 0 [], .line 4 "CREATE lounge".toList),
   (.calm 0 0 [], .accept 5 false),
   (.calm 0 1 "t1".toList, .line 5 "REGISTER bob pw".toList),
   (.calm 0 1 [], .line 5 "JOIN lounge".toList)]

theorem who_answered_once :
    answersTo 4 (step (run step (World.init ⟨4, 4, 4, 10⟩ .empty 0) aliceAndBob)
      (.calm 0 0 [], .line 4 "WHO".toList)) = 1 :=
  (answered_once_iff ⟨4, 4, 4, 10⟩ .empty 0 aliceAndBob (.calm 0 0 []) 4 "WHO".toList
    ⟨4, some 0, false⟩ rfl).mpr fun _ _ h => absurd h.type (by decide)

/-- Alice makes Bob the admin, and hears of it only from the broadcast. -/
theorem promote_not_answered :
    ¬ answersTo 4 (step (run step (World.init ⟨4, 4, 4, 10⟩ .empty 0) aliceAndBob)
      (.calm 0 0 [], .line 4 "PROMOTE bob".toList)) = 1 := by
  decide +kernel

end ChatServer
