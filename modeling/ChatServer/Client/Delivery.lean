import ChatServer.Client.Messages
import ChatServer.Client.Receiver
import ChatServer.Membership.Takeover
import ChatServer.Protocol.RoundTrip
import ChatServer.Replies.OneLine
import ChatServer.Transport.Addressees

/-! # From one client to the others

A command that sends, changes or deletes a message, followed from the line its
client types to what the clients of its recipients show: who is sent a line,
that nobody is sent it twice, and that its fields are shown in full.
-/

namespace ChatServer

open Library World Roster

/-- A command of `me` that passes, the clients it is meant for, and the line that tells them. -/
inductive Tells (env : Env) (w : World) (me : ClientPtr) :
    CmdType → List Text → List ClientPtr → SentLine → Prop
  | msg {room : RoomPtr} {id : ℤ} {text : Text}
      (sent : messageOf env { type := .msg, arg1 := some text } me w = some (room, id)) :
      Tells env w me .msg [text] ((w.room room).members.filter (· ≠ me))
        (.msg id (w.client me).clientName text)
  | pm {target : ClientPtr} {n text : Text}
      (sent : privateOf env { type := .pm, arg1 := some n, arg2 := some text } me w =
        some (target, text)) :
      Tells env w me .pm [n, text] [target] (.pm (w.client me).clientName text)
  | edit {room : RoomPtr} {idStr newText : Text}
      (inside : (w.client me).currentRoom = some room) (hid : 0 < atoll idStr)
      (changed : (roomEditMessage env room (atoll idStr) (w.client me).clientName newText
        w.db w.reg).1 = .ok) :
      Tells env w me .edit [idStr, newText] (w.room room).members (.edited (atoll idStr) newText)
  | delete {room : RoomPtr} {idStr : Text}
      (inside : (w.client me).currentRoom = some room) (hid : 0 < atoll idStr)
      (changed : (roomDeleteMessage env room (atoll idStr) (w.client me).clientName
        ((w.room room).adminClient = some me) w.db w.reg).1 = .ok) :
      Tells env w me .delete [idStr] (w.room room).members (.deleted (atoll idStr))

variable {env : Env} {w : World} {command : Cmd} {conn : Conn} {me : ClientPtr} {r room : RoomPtr}
  {id : ℤ} {idStr text newText : Text} {target : ClientPtr} {fd : Fd} {type : CmdType}
  {args : List Text} {recipients : List ClientPtr} {l : SentLine} {rcv : Receiver}

/-- The descriptor and the bytes of everything sent. -/
def World.traffic (w : World) : List (Fd × Text) := w.out.map fun o => (o.fd, o.line.bytes)

theorem traffic_replyOk {status : Text} : (w.replyOk conn status).traffic =
    w.traffic ++ [(conn.fd, formatOkReply maxLineLen status)] := by
  simp [traffic]

theorem traffic_broadcast {line : Line} : (w.broadcast r line fd).traffic =
    w.traffic ++ (broadcastFds r fd w.reg).map (·, line.bytes) := by
  simp [traffic]

theorem traffic_handleMsg (h₁ : command.arg1 = some text)
    (sent : messageOf env command me w = some (room, id)) :
    (handleMsg env command conn me w).traffic = w.traffic ++
      (broadcastFds room conn.fd w.reg).map
        (·, formatMsgReplyId maxLineLen id (w.client me).clientName text) ++
      [(conn.fd, formatOkReply maxLineLen okSent)] := by
  obtain ⟨inside, hfree, text', h₁', htext⟩ := messageOf_eq_some sent
  obtain rfl := Option.some.inj (h₁.symm.trans h₁')
  rcases hrate : rateLimitCheck env me w.reg with ⟨ok, reg⟩
  rw [hrate] at hfree
  obtain rfl : ok = true := hfree
  simp only [messageOf, inside, h₁, hrate, htext, if_false, Option.some.injEq, Prod.mk.injEq,
    true_and] at sent
  simp only [handleMsg, inside, hrate, h₁, htext, if_false, if_pos roomAddHistory_id_pos]
  rw [traffic_replyOk, traffic_broadcast, broadcastFds_roomAddHistory hrate, sent]
  rfl

theorem traffic_handlePm {n : Text} (h₁ : command.arg1 = some n) (h₂ : command.arg2 = some text)
    (sent : privateOf env command me w = some (target, text)) :
    (handlePm env command conn me w).traffic = w.traffic ++
      [((w.client target).socketFd, formatPmReply maxLineLen (w.client me).clientName text)] ++
      [(conn.fd, formatOkReply maxLineLen okSent)] := by
  rcases hrate : rateLimitCheck env me w.reg with ⟨ok, reg⟩
  simp only [privateOf, h₁, h₂, hrate] at sent
  split_ifs at sent with hpass
  · obtain ⟨htext, rfl⟩ := hpass
    obtain ⟨c, hfind, hc⟩ := Option.map_eq_some_iff.mp sent
    obtain rfl : c = target := congrArg Prod.fst hc
    simp only [handlePm, h₁, h₂, htext, if_false, hrate, findClient_rateLimitCheck hrate, hfind]
    rw [traffic_replyOk]
    simp [traffic, World.client]

theorem traffic_handleEdit (h₁ : command.arg1 = some idStr) (h₂ : command.arg2 = some newText)
    (htext : newText ≠ []) (inside : (w.client me).currentRoom = some room) (hid : 0 < atoll idStr)
    (changed : (roomEditMessage env room (atoll idStr) (w.client me).clientName newText
      w.db w.reg).1 = .ok) :
    (handleEdit env command conn me w).traffic = w.traffic ++
      (broadcastFds room (-1) w.reg).map (·, formatEditedReply maxLineLen (atoll idStr) newText) ++
      [(conn.fd, formatOkReply maxLineLen okSent)] := by
  rcases hedit : roomEditMessage env room (atoll idStr) (w.client me).clientName newText
    w.db w.reg with ⟨res, db, reg⟩
  rw [hedit] at changed
  obtain rfl : res = .ok := changed
  have hkeep : rosterOf reg w.conns = w.roster := rosterOf_roomEditMessage hedit
  simp only [handleEdit, inside, h₁, h₂, htext, if_false, not_le.mpr hid, hedit]
  rw [traffic_replyOk, traffic_broadcast, broadcastFds_congr hkeep]
  rfl

theorem traffic_handleDelete (h₁ : command.arg1 = some idStr)
    (inside : (w.client me).currentRoom = some room) (hid : 0 < atoll idStr)
    (changed : (roomDeleteMessage env room (atoll idStr) (w.client me).clientName
      ((w.room room).adminClient = some me) w.db w.reg).1 = .ok) :
    (handleDelete env command conn me w).traffic = w.traffic ++
      (broadcastFds room (-1) w.reg).map (·, formatDeletedReply maxLineLen (atoll idStr)) ++
      [(conn.fd, formatOkReply maxLineLen okSent)] := by
  rcases hdelete : roomDeleteMessage env room (atoll idStr) (w.client me).clientName
    ((w.room room).adminClient = some me) w.db w.reg with ⟨res, db, reg⟩
  rw [hdelete] at changed
  obtain rfl : res = .ok := changed
  have hkeep : rosterOf reg w.conns = w.roster := rosterOf_roomDeleteMessage hdelete
  simp only [handleDelete, inside, h₁, if_false, not_le.mpr hid, hdelete]
  rw [traffic_replyOk, traffic_broadcast, broadcastFds_congr hkeep]
  rfl

theorem broadcastFds_others (hs : w.roster.Sound) (hv : w.roster.Vacant)
    (hme : w.roster.conns fd = some (some me)) : broadcastFds r fd w.reg =
      ((w.room r).members.filter (· ≠ me)).map fun c => (w.client c).socketFd := by
  rw [broadcastFds, List.filter_map]
  refine congrArg (List.map _) (List.filter_congr fun c hc => ?_)
  have hlogged := (members_logged hs hv r).2 c hc
  have haddress : (w.client me).socketFd = fd := (hs.linked.mem_of_conn hme).2
  refine decide_eq_decide.mpr (not_congr ⟨fun h => ?_, fun h => ?_⟩)
  · have hc' : (w.client c).socketFd = fd := h
    rw [hc', hme] at hlogged
    exact (Option.some.inj (Option.some.inj hlogged)).symm
  · exact h ▸ haddress

theorem broadcastFds_all (hs : w.roster.Sound) (hv : w.roster.Vacant)
    (hfd : w.roster.conns fd = none) : broadcastFds r fd w.reg =
      (w.room r).members.map fun c => (w.client c).socketFd := by
  refine List.filter_eq_self.mpr fun fd' hmem => ?_
  obtain ⟨c, hc, rfl⟩ := List.mem_map.mp hmem
  have hlogged := (members_logged hs hv r).2 c hc
  refine decide_eq_true fun h => ?_
  have hc' : (w.client c).socketFd = fd := h
  rw [hc', hfd] at hlogged
  cases hlogged

theorem closed_apply {s : Roster RoomPtr ClientPtr Text Fd} {a : ChatAct} (ha : s.Enabled a)
    (h : s.conns fd = none) (hne : a ≠ .connect fd) : (s.apply a).conns fd = none := by
  cases a with
  | connect fd' =>
    have hfd : fd ≠ fd' := fun he => hne (he ▸ rfl)
    simpa [Roster.apply, hfd] using h
  | hangup fd' =>
    rcases eq_or_ne fd fd' with rfl | hfd
    · simp [Roster.apply]
    · simpa [Roster.apply, hfd] using h
  | login fd' c n =>
    have hfd : fd ≠ fd' := by
      rintro rfl
      rw [ha.1] at h
      cases h
    simpa [Roster.apply, hfd] using h
  | logout fd' c =>
    have hfd : fd ≠ fd' := by
      rintro rfl
      rw [ha.1] at h
      cases h
    simpa [Roster.apply, hfd] using h
  | create | close | enter | sit | leave | promote => exact h

theorem negative_closed {cfg : Config} {db : Database} {start : ℤ} {inputs : List (Env × Event)}
    (hfd : fd < 0) :
    (run step (World.init cfg db start) inputs).roster.conns fd = none := by
  refine run_invariant (I := fun w : World => w.roster.conns fd = none) (fun w input h => ?_) ?_
    inputs
  · obtain ⟨env, e⟩ := input
    by_cases he : ∃ ssl, e = .accept fd ssl
    · obtain ⟨ssl, rfl⟩ := he
      rw [step, handleEvent, if_pos (.inl hfd)]
      exact h
    · refine (step_leads w env e).invariant (I := fun s => s.conns fd = none) ?_ h
      rintro s a hs ⟨hdoes, ha⟩
      refine closed_apply ha hs ?_
      rintro rfl
      cases hdoes with
      | connect => exact he ⟨_, rfl⟩
      | command _ hpermits => cases hpermits
  · exact (roster_init cfg db start).conns fd

theorem Tells.decodeLine (h : Tells env w me type args recipients l) (hl : l.Sendable) :
    decodeLine l.line = l.fields := by
  obtain ⟨hfields, hfit⟩ := hl
  cases h with
  | msg sent =>
    obtain ⟨hid, hsender, hbody⟩ := hfields
    obtain ⟨n, rfl⟩ := Int.eq_ofNat_of_zero_le (Int.le_of_lt hid)
    exact decodeLine_msg hsender.toIsWord hbody hfit
  | pm sent => exact decodeLine_pm hfields.1.toIsWord hfields.2 hfit
  | edit inside hid changed =>
    obtain ⟨n, hn⟩ := Int.eq_ofNat_of_zero_le (Int.le_of_lt hid)
    simp only [SentLine.words, hn] at hfit
    simp only [SentLine.line, SentLine.fields, hn]
    exact decodeLine_edited hfields.2 hfit
  | delete inside hid changed =>
    obtain ⟨n, hn⟩ := Int.eq_ofNat_of_zero_le (Int.le_of_lt hid)
    simp only [SentLine.words, hn] at hfit
    simp only [SentLine.line, SentLine.fields, hn]
    exact decodeLine_deleted hfit

/-- It shows them in full, if the text of a message fits its buffer with the id. -/
theorem Tells.shown (h : Tells env w me type args recipients l) (hl : l.Sendable) (hp : l.Plain)
    (currentRoom : Text) : l.fields.shown currentRoom = [l.display currentRoom] := by
  obtain ⟨hfields, hfit⟩ := hl
  cases h with
  | msg sent => exact shown_msg_iff.mpr hp currentRoom
  | pm sent => rfl
  | edit inside hid changed => exact shown_edited hfit currentRoom
  | delete inside hid changed => exact shown_deleted hfields.2 currentRoom

theorem mem_intercalate {words : List Text} {c : Char} (h : c ∈ [' '].intercalate words) :
    c = ' ' ∨ ∃ word ∈ words, c ∈ word := by
  induction words with
  | nil => simp [List.intercalate] at h
  | cons word words ih =>
    cases words with
    | nil => exact .inr ⟨word, List.mem_singleton_self _, by simpa [List.intercalate] using h⟩
    | cons word' words =>
      rw [List.intercalate_cons_cons, List.mem_append, List.mem_append, List.mem_singleton] at h
      rcases h with (h | h) | h
      · exact .inr ⟨word, List.mem_cons_self, h⟩
      · exact .inl h
      · rcases ih h with rfl | ⟨v, hv, hc⟩
        · exact .inl rfl
        · exact .inr ⟨v, List.mem_cons_of_mem _ hv, hc⟩

theorem Tells.words_clean (hargs : Shaped type args) (h : Tells env w me type args recipients l)
    (hl : l.Sendable) : ∀ word ∈ l.words, '\n' ∉ word ∧ '\x00' ∉ word := by
  have hdecimal {id : ℤ} (hid : 0 < id) : '\n' ∉ decimal id ∧ '\x00' ∉ decimal id := by
    obtain ⟨n, rfl⟩ := Int.eq_ofNat_of_zero_le (Int.le_of_lt hid)
    exact ⟨fun hc => absurd (isDigit_of_mem_decimal hc) (by decide),
      fun hc => absurd (isDigit_of_mem_decimal hc) (by decide)⟩
  obtain ⟨hfields, -⟩ := hl
  cases h with
  | msg sent =>
    obtain ⟨hid, hsender, hbody⟩ := hfields
    obtain ⟨s, hs, ht⟩ := hargs.one rfl
    obtain rfl := List.singleton_inj.mp hs
    simp only [SentLine.words, List.forall_mem_cons]
    exact ⟨by decide, hdecimal hid, ⟨hsender.noNewline, hsender.noNul⟩, ht.2, by simp⟩
  | pm sent =>
    obtain ⟨hsender, hbody⟩ := hfields
    obtain ⟨s, t, hst, -, ht⟩ := hargs.two rfl
    obtain ⟨-, rfl⟩ := by simpa using hst
    simp only [SentLine.words, List.forall_mem_cons]
    exact ⟨by decide, ⟨hsender.noNewline, hsender.noNul⟩, ht.2, by simp⟩
  | edit inside hid changed =>
    obtain ⟨s, t, hst, -, ht⟩ := hargs.two rfl
    obtain ⟨-, rfl⟩ := by simpa using hst
    simp only [SentLine.words, List.forall_mem_cons]
    exact ⟨by decide, hdecimal hid, ht.2, by simp⟩
  | delete inside hid changed =>
    simp only [SentLine.words, List.forall_mem_cons]
    exact ⟨by decide, hdecimal hid, by simp⟩

theorem SentLine.Sendable.line_eq (hl : l.Sendable) :
    l.line = [' '].intercalate l.words ++ ['\n'] := by
  rw [l.line_eq, snprintf, List.take_of_length_le (Nat.le_sub_one_of_lt hl.fits)]
  rfl

/-- A client that reads the line, whole and alone, handles its words. -/
theorem SentLine.Sendable.receive (hl : l.Sendable)
    (hclean : ∀ word ∈ l.words, '\n' ∉ word ∧ '\x00' ∉ word) :
    rcv.receive l.line = rcv.handle ([' '].intercalate l.words) := by
  have hline := hl.line_eq
  have hnewline : '\n' ∉ [' '].intercalate l.words :=
    newline_not_mem_intercalate fun word hword => (hclean word hword).1
  have hnul : '\x00' ∉ l.line := by
    rw [hline, List.mem_append]
    rintro (h | h)
    · rcases mem_intercalate h with hspace | ⟨word, hword, hc⟩
      · cases hspace
      · exact (hclean word hword).2 hc
    · cases List.mem_singleton.mp h
  have hne : [' '].intercalate l.words ≠ [] := by
    rcases l with _ | _ | _ | _ | _ | ⟨_ | _, _⟩ <;>
      simp [SentLine.words, List.intercalate_cons_cons]
  have htokens : tokens (· = '\n') ([[' '].intercalate l.words].flatMap (· ++ ['\n'])) =
      [[' '].intercalate l.words].filter fun line => !line.isEmpty := by
    refine tokens_lines (by simp) fun line hmem c hc => decide_eq_false fun heq => ?_
    exact hnewline (heq ▸ List.mem_singleton.mp hmem ▸ hc)
  rw [List.flatMap_singleton, ← hline] at htokens
  rw [receive_eq hnul, htokens]
  simp [hne]

theorem Tells.update (h : Tells env w me type args recipients l) (client : ClientState) :
    l.fields.update client = client := by
  cases h <;> rfl

theorem Tells.logged (hs : w.roster.Sound) (hv : w.roster.Vacant)
    (h : Tells env w me type args recipients l) :
    recipients.Nodup ∧ ∀ c ∈ recipients, w.roster.conns (w.client c).socketFd = some (some c) := by
  cases h with
  | msg sent =>
    exact ⟨(members_logged hs hv _).1.filter _, fun c hc =>
      (members_logged hs hv _).2 c (List.mem_of_mem_filter hc)⟩
  | @pm target n text sent =>
    refine ⟨List.nodup_singleton _, fun c hc => ?_⟩
    obtain rfl := List.mem_singleton.mp hc
    simp only [privateOf] at sent
    split_ifs at sent with hpass
    · obtain ⟨c', hfind, hc'⟩ := Option.map_eq_some_iff.mp sent
      obtain rfl : c' = c := congrArg Prod.fst hc'
      exact hs.linked.conn_of_mem (findClient_some hfind).1
  | edit inside hid changed => exact members_logged hs hv _
  | delete inside hid changed => exact members_logged hs hv _

/-- What the line of the command makes the server send. -/
theorem Tells.traffic (hs : w.roster.Sound) (hv : w.roster.Vacant)
    (hnegative : w.roster.conns (-1) = none)
    (hconn : w.conns.get conn.fd = some conn) (hme : conn.me = some me)
    (hargs : Shaped type args) (h : Tells env w me type args recipients l) :
    (step w (env, .line conn.fd (render type args))).traffic =
      recipients.map (fun c => ((w.client c).socketFd, l.line)) ++
        [(conn.fd, formatOkReply maxLineLen okSent)] := by
  have hlogged : w.roster.conns conn.fd = some (some me) :=
    roster_conns_eq_some.mpr ⟨conn, hconn, hme⟩
  have hstep {command : Cmd} (hparse : parseLine (render type args) = command)
      (ht : command.type = type) (hne : type ≠ .invalid) :
        step w (env, .line conn.fd (render type args)) =
        dispatch env command conn me { w with out := [], broadcasts := [] } :=
    step_eq_dispatch env ⟨_, rfl, hconn, hme, hparse⟩ (ht ▸ hne)
  cases h with
  | @msg room id text sent =>
    obtain ⟨s, hs', ht⟩ := hargs.one rfl
    obtain rfl : text = s := List.singleton_inj.mp hs'
    have hparse : parseLine (render .msg [text]) = { type := .msg, arg1 := some text } := by
      rw [render_one, parseLine_server (by decide)]
      exact congrArg (fun t => { type := CmdType.msg, arg1 := t : Cmd }) (strtokRest_eq ht.1)
    rw [hstep hparse rfl (by decide)]
    refine (traffic_handleMsg (w := { w with out := [], broadcasts := [] }) rfl sent).trans ?_
    simp only [World.traffic, List.map_nil, List.nil_append]
    rw [broadcastFds_others hs hv hlogged, List.map_map]
    rfl
  | @pm target n text sent =>
    obtain ⟨s, t, hst, hs', ht⟩ := hargs.two rfl
    obtain ⟨rfl, rfl⟩ : n = s ∧ text = t := by simpa using hst
    rw [hstep (parseLine_text (.inl rfl) hs' ht) rfl (by decide)]
    exact traffic_handlePm (w := { w with out := [], broadcasts := [] }) rfl rfl sent
  | @edit room idStr newText inside hid changed =>
    obtain ⟨s, t, hst, hs', ht⟩ := hargs.two rfl
    obtain ⟨rfl, rfl⟩ : idStr = s ∧ newText = t := by simpa using hst
    rw [hstep (parseLine_text (.inr rfl) hs' ht) rfl (by decide)]
    refine (traffic_handleEdit (w := { w with out := [], broadcasts := [] }) rfl rfl ht.1 inside hid
      changed).trans ?_
    simp only [World.traffic, List.map_nil, List.nil_append]
    rw [broadcastFds_all hs hv hnegative, List.map_map]
    rfl
  | @delete room idStr inside hid changed =>
    obtain ⟨s, hs', ht⟩ := hargs.one rfl
    obtain rfl : idStr = s := List.singleton_inj.mp hs'
    rw [hstep (parseLine_word (by decide) ht) rfl (by decide)]
    refine (traffic_handleDelete (w := { w with out := [], broadcasts := [] }) rfl inside hid
      changed).trans ?_
    simp only [World.traffic, List.map_nil, List.nil_append]
    rw [broadcastFds_all hs hv hnegative, List.map_map]
    rfl

/--
In every reachable state a command that sends, changes or deletes a message
reaches its recipients and nobody else. Each is logged in and is sent one line,
the sender gets `OK SENT`, and the client of a recipient shows the fields of
the command: the id, the name of the sender, the text. The line must fit its
buffer, in the server and, for a MSG, in the client, and the text may not end
in a carriage return.
-/
theorem tells_recipients {cfg : Config} {db : Database} {start : ℤ} {inputs : List (Env × Event)}
    (hw : w = run step (World.init cfg db start) inputs)
    (hconn : w.conns.get conn.fd = some conn) (hme : conn.me = some me)
    (hargs : Shaped type args) (h : Tells env w me type args recipients l) (hl : l.Sendable)
    (hp : l.Plain) :
    (step w (env, .line conn.fd (render type args))).traffic =
      recipients.map (fun c => ((w.client c).socketFd, l.line)) ++
        [(conn.fd, formatOkReply maxLineLen okSent)] ∧
    recipients.Nodup ∧ (∀ c ∈ recipients, w.roster.conns (w.client c).socketFd = some (some c)) ∧
    ∀ rcv : Receiver, (rcv.receive l.line).client = rcv.client ∧
      (rcv.receive l.line).displays =
        rcv.displays ++ [l.display rcv.client.currentRoom] := by
  have hs : w.roster.Sound := hw ▸ run_sound
  have hnegative : w.roster.conns (-1) = none := hw ▸ negative_closed (by decide)
  have hv : w.roster.Vacant := hw ▸ run_vacant
  obtain ⟨honce, hlogged⟩ := h.logged hs hv
  refine ⟨h.traffic hs hv hnegative hconn hme hargs, honce, hlogged, fun rcv => ?_⟩
  rw [hl.receive (h.words_clean hargs hl)]
  have hdecode : decodeLine ([' '].intercalate l.words) = l.fields := by
    rw [← h.decodeLine hl, hl.line_eq, decodeLine, decodeLine, stripLine_newline]
  simp only [Receiver.handle, handleServerLine, hdecode, h.update, h.shown hl hp, and_self]

/-- Bob's client shows what Alice says. -/
theorem hello_shown :
    (step (run step (World.init ⟨16, 64, 16, 10⟩ .empty 0) sharedRoom)
        (.calm 0 0 [], .line 4 (render .msg ["hello".toList]))).traffic =
      [(5, "MSG 1 alice hello\n".toList), (4, "OK SENT\n".toList)] ∧
    (Receiver.receive { client := { currentRoom := "lounge".toList } }
      "MSG 1 alice hello\n".toList).displays =
        [.message "lounge".toList "alice".toList "[1] hello".toList] := by
  have hconn : (run step (World.init ⟨16, 64, 16, 10⟩ .empty 0) sharedRoom).conns.get
      (⟨4, some 0, false⟩ : Conn).fd = some ⟨4, some 0, false⟩ := by decide +kernel
  have hargs : Shaped .msg ["hello".toList] :=
    ⟨_, List.mem_singleton_self _, .cons ⟨by decide, by decide, by decide⟩ .nil⟩
  have hsent : Tells (.calm 0 0 []) (run step (World.init ⟨16, 64, 16, 10⟩ .empty 0) sharedRoom) 0
      .msg ["hello".toList] [1] (.msg 1 "alice".toList "hello".toList) :=
    @Tells.msg (.calm 0 0 []) (run step (World.init ⟨16, 64, 16, 10⟩ .empty 0) sharedRoom) 0 0 1
      "hello".toList (by decide +kernel)
  have h := tells_recipients rfl hconn rfl hargs hsent
    ⟨⟨by decide, ⟨⟨by decide, by decide⟩, by decide, by decide, by decide⟩,
      ⟨by decide, by decide, by decide⟩⟩, by decide⟩ (by unfold SentLine.Plain; decide)
  exact ⟨h.1.trans (by decide +kernel), (h.2.2.2 _).2⟩

end ChatServer
