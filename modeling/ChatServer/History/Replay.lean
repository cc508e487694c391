import ChatServer.History.Authors
import ChatServer.Membership.Names

/-! # Live and replayed lines

A message is sent live with its whole text, and replayed from a slot or a row
with the text cut to its field. The two lines are the same exactly if the text
fits in the field.
-/

namespace ChatServer

open Library World

variable {env env' : Env} {w : World} {e e' : Event} {conn : Conn} {me : ClientPtr} {command : Cmd}
  {r room : RoomPtr} {reg : Registry} {db : Database} {n name text : Text} {id msgId : ℤ}
  {m : Message} {o : Output} {a : Archive}

/-- The line of a stored message. -/
def messageLine (m : Message) : Text := snprintf maxLineLen (lineOf [replyMsg, decimal m.id,
  m.sender, if m.deleted then "[deleted]".toList else m.text])

theorem cutLine_eq_iff (hname : name.length < maxUsernameLen) (hid : Int64 id) :
    snprintf maxLineLen (lineOf [replyMsg, decimal id, name, strncpy maxTextLen text]) =
      formatMsgReplyId maxLineLen id name text ↔ text.length < maxTextLen := by
  have hdec := length_decimal_of_int64 hid
  unfold maxUsernameLen at hname
  constructor
  · intro h
    by_contra hlong
    have hlen := congrArg List.length h
    simp only [formatMsgReplyId, snprintf, List.length_take, length_lineOf, List.map_cons,
      List.map_nil, List.sum_cons, List.sum_nil, strncpy, maxLineLen, maxTextLen,
      show replyMsg.length = 3 from rfl] at hlen hlong
    omega
  · intro hfit
    rw [strncpy_eq_self hfit, formatMsgReplyId]

/-- A stored message holds the sender and the text of a MSG, unless it was edited or deleted. -/
def CopyOf (name text : Text) (m : Message) : Prop :=
  m.deleted = false → m.editedAt = 0 →
    m.sender = strncpy maxUsernameLen name ∧ m.text = strncpy maxTextLen text

/-- Every stored message of an id is a copy. -/
structure Archive.Copies (a : Archive) (id : ℤ) (name text : Text) : Prop where
  rows : ∀ row ∈ a.messages.rows, row.id = id → CopyOf name text row.load
  slots : ∀ r i, ((a.shelves r).history.slots i).id = id →
    CopyOf name text ((a.shelves r).history.slots i)

/-- No row and no slot has the id. -/
structure Archive.Unused (a : Archive) (id : ℤ) : Prop where
  rows : ∀ row ∈ a.messages.rows, row.id ≠ id
  slots : ∀ r i, ((a.shelves r).history.slots i).id ≠ id

theorem Archive.Unused.copies (h : a.Unused id) : a.Copies id name text where
  rows := fun row hrow hid => absurd hid (h.rows row hrow)
  slots := fun r i hid => absurd hid (h.slots r i)

theorem messageOf_iff_added : messageOf env command me w = some (room, msgId) ↔
    (w.client me).currentRoom = some room ∧ (rateLimitCheck env me w.reg).1 = true ∧
      ∃ text, command.arg1 = some text ∧ text ≠ [] ∧
        (roomAddHistory env room (w.client me).clientName text w.db w.reg).1 = msgId := by
  have hadd {reg : Registry} {ok : Bool} (hrate : rateLimitCheck env me w.reg = (ok, reg))
      (text : Text) : (roomAddHistory env room (w.client me).clientName text w.db reg).1 =
        (roomAddHistory env room (w.client me).clientName text w.db w.reg).1 :=
    (roomAddHistory_shelves env room _ text w.db (shelvesOf_of_rateLimit hrate)).1
  constructor
  · intro hsent
    obtain ⟨hcur, hfree, text, h₁, htext⟩ := messageOf_eq_some hsent
    refine ⟨hcur, hfree, text, h₁, htext, ?_⟩
    rcases hrate : rateLimitCheck env me w.reg with ⟨ok, reg⟩
    rw [hrate] at hfree
    obtain rfl : ok = true := hfree
    simp only [messageOf, hcur, h₁, hrate, htext, if_false, Option.some.injEq,
      Prod.mk.injEq] at hsent
    rw [← hadd hrate]
    exact hsent.2
  · rintro ⟨hcur, hfree, text, h₁, htext, rfl⟩
    rcases hrate : rateLimitCheck env me w.reg with ⟨ok, reg⟩
    rw [hrate] at hfree
    obtain rfl : ok = true := hfree
    simp only [messageOf, hcur, h₁, hrate, htext, if_false, Option.some.injEq, Prod.mk.injEq,
      true_and]
    exact hadd hrate text

theorem copies_added {db' : Database} {reg' : Registry} {sender body : Text}
    (ha : (archiveOf reg db).Copies id name text)
    (hnew : msgId = id → sender = name ∧ body = text)
    (h : roomAddHistory env room sender body db reg = (msgId, db', reg')) :
    (archiveOf reg' db').Copies id name text := by
  obtain ⟨rfl, hshelves⟩ := shelvesOf_of_added h
  refine ⟨fun row hrow hid => ?_, fun r i => ?_⟩
  · rcases mem_dbSaveMessage hrow with hold | ⟨hsql, rfl⟩
    · exact ha.rows row hold hid
    · obtain ⟨rfl, rfl⟩ := hnew ((id_of_added hsql h).trans hid)
      exact fun _ _ => ⟨rfl, rfl⟩
  · simp only [archiveOf, hshelves, Function.update_apply]
    split_ifs with hr hcap
    · exact ha.slots room i
    · simp only [addMessage, RingBuffer.write, Function.update_apply]
      split_ifs
      · intro hid
        obtain ⟨rfl, rfl⟩ := hnew hid
        exact fun _ _ => ⟨rfl, rfl⟩
      · exact ha.slots room i
    · exact ha.slots r i

theorem slots_newRoom (env : Env) (n : Text) (c : ClientPtr) (reg : Registry) (db : Database)
    (i : ℕ) : (newRoom env n c reg db).history.slots i = zeroMessage ∨
      ∃ row ∈ db.messages.rows, (newRoom env n c reg db).history.slots i = row.load := by
  have hload {rows : List Message} {h : RingBuffer Message}
      (hrows : ∀ m ∈ rows, ∃ row ∈ db.messages.rows, row.room = n ∧ m = row.load)
      (hi : h.slots i = zeroMessage ∨ ∃ row ∈ db.messages.rows, h.slots i = row.load) :
      (rows.foldl loadMessage h).slots i = zeroMessage ∨
        ∃ row ∈ db.messages.rows, (rows.foldl loadMessage h).slots i = row.load := by
    induction rows generalizing h with
    | nil => exact hi
    | cons m rows ih =>
      obtain ⟨⟨row, hrow, -, rfl⟩, hrest⟩ := List.forall_mem_cons.mp hrows
      refine ih hrest ?_
      simp only [loadMessage, RingBuffer.write, Function.update_apply]
      split_ifs
      · exact .inr ⟨row, hrow, by simp [MessageRow.load]⟩
      · exact hi
  exact hload (mem_loadedRows env n reg.historySize db).1 (.inl rfl)

/-- What a client's command does to the messages keeps copies, unless it gives the id again. -/
theorem Archives.copies (hw : w.archive.Copies id name text) (hid : 0 < id)
    (hother : command.type = .msg → ∀ room, messageOf env command me w ≠ some (room, id))
    (ha : Archives env w me command a) : a.Copies id name text := by
  cases ha with
  | @create n r reg ht h₁ made =>
    obtain ⟨-, -, hshelves⟩ := shelvesOf_of_created made
    refine ⟨hw.rows, fun r' i => ?_⟩
    simp only [archiveOf, hshelves, Function.update_apply]
    split_ifs
    · rcases slots_newRoom env n me w.reg w.db i with hzero | ⟨row, hrow, hload⟩
      · intro hi
        have hzero' : id = 0 := hi.symm.trans (congrArg Message.id hzero)
        exact absurd hzero' hid.ne'
      · intro hi
        have hload' : (newRoom env n me w.reg w.db).shelf.history.slots i = row.load := hload
        rw [hload'] at hi ⊢
        exact hw.rows row hrow hi
    · exact hw.slots r' i
  | @msg body room msgId db reg ht h₁ inside htext free added =>
    refine copies_added hw (fun he => ?_) added
    have hsent : messageOf env command me w = some (room, msgId) :=
      messageOf_iff_added.mpr ⟨inside, free, body, h₁, htext, congrArg Prod.fst added⟩
    exact absurd (he ▸ hsent) (hother ht room)
  | @edit idStr newText room db reg ht h₁ h₂ inside htext hpos edited =>
    obtain ⟨rfl, h', hchange, hshelves⟩ := shelvesOf_of_edited edited
    obtain ⟨k, -, -, -, rfl⟩ := changeMessage_set hchange
    have hnow : env.now ≠ 0 := env.now_pos.ne'
    refine ⟨fun row' hrow' hid' => ?_, fun r i => ?_⟩
    · rcases mem_dbEditMessage hrow' with hold | ⟨row, -, -, -, -, rfl⟩
      · exact hw.rows row' hold hid'
      · exact fun _ hedited => absurd hedited hnow
    · simp only [archiveOf, hshelves, Function.update_apply]
      split_ifs
      · simp only [RingBuffer.set, Function.update_apply]
        split_ifs
        · exact fun _ _ hedited => absurd hedited hnow
        · exact hw.slots room i
      · exact hw.slots r i
  | @delete idStr room db reg ht h₁ inside hpos deleted =>
    obtain ⟨rfl, h', hchange, hshelves⟩ := shelvesOf_of_deleted deleted
    obtain ⟨k, -, -, -, rfl⟩ := changeMessage_set hchange
    refine ⟨fun row' hrow' hid' => ?_, fun r i => ?_⟩
    · rcases mem_dbDeleteMessage hrow' with hold | ⟨row, -, -, -, -, rfl⟩
      · exact hw.rows row' hold hid'
      · exact fun hdeleted => Bool.noConfusion (hdeleted : true = false)
    · simp only [archiveOf, hshelves, Function.update_apply]
      split_ifs
      · simp only [RingBuffer.set, Function.update_apply]
        split_ifs
        · exact fun _ hdeleted => Bool.noConfusion (hdeleted : true = false)
        · exact hw.slots room i
      · exact hw.slots r i

/-- No MSG of an input is given the id. -/
def NotGiven (id : ℤ) (w : World) (input : Env × Event) : Prop :=
  ∀ conn me command room, Commands w input.2 conn me command → command.type = .msg →
    messageOf input.1 command me w ≠ some (room, id)

theorem step_copies (hw : w.archive.Copies id name text) (hid : 0 < id)
    (hother : NotGiven id w (env, e)) : (step w (env, e)).archive.Copies id name text := by
  rcases step_archive w env e with hkept | ⟨conn, me, command, hcmd, ha⟩
  · exact hkept ▸ hw
  · exact ha.copies hw hid fun ht room => hother conn me command room hcmd ht

theorem step_msg_copies (hcmd : Commands w e conn me command) (ht : command.type = .msg)
    (h₁ : command.arg1 = some text) (hsent : messageOf env command me w = some (room, id))
    (hunused : w.archive.Unused id) :
    (step w (env, e)).archive.Copies id (w.client me).clientName text := by
  rcases step_archive w env e with hkept | ⟨conn', me', command', hcmd', ha⟩
  · exact hkept ▸ hunused.copies
  · obtain ⟨rfl, rfl, rfl⟩ := hcmd.unique hcmd'
    obtain ⟨hcur, -⟩ := messageOf_eq_some hsent
    generalize (step w (env, e)).archive = a at ha
    cases ha with
    | create ht' => rcases ht' with ht' | ht' <;> simp [ht] at ht'
    | @msg body room' msgId db reg ht' h₁' inside htext free added =>
      obtain rfl := Option.some.inj (h₁'.symm.trans h₁)
      exact copies_added hunused.copies (fun _ => ⟨rfl, rfl⟩) added
    | edit ht' => simp [ht] at ht'
    | delete ht' => simp [ht] at ht'

theorem handleMsg_out (h₁ : command.arg1 = some text)
    (hsent : messageOf env command me w = some (room, id)) :
    (handleMsg env command conn me w).out = w.out ++
      (broadcastFds room conn.fd w.reg).map (⟨·, .rawSend,
        ⟨formatMsgReplyId maxLineLen id (w.client me).clientName text, some (.live room)⟩⟩) ++
      [⟨conn.fd, conn.channel, { bytes := formatOkReply maxLineLen okSent }⟩] := by
  obtain ⟨hcur, hfree, text', h₁', htext⟩ := messageOf_eq_some hsent
  obtain rfl := Option.some.inj (h₁.symm.trans h₁')
  rcases hrate : rateLimitCheck env me w.reg with ⟨ok, reg⟩
  rw [hrate] at hfree
  obtain rfl : ok = true := hfree
  simp only [messageOf, hcur, h₁, hrate, htext, if_false, Option.some.injEq, Prod.mk.injEq,
    true_and] at hsent
  have hpos : 0 < id := hsent ▸ roomAddHistory_id_pos
  simp only [handleMsg, hcur, h₁, hrate, htext, if_false, hsent, hpos, if_true]
  rw [replyOk_eq, reply_eq, broadcast_eq, emit_out, emit_out, broadcastFds_roomAddHistory hrate]

/-- The live line of an accepted MSG. -/
theorem step_live_line (hcmd : Commands w e conn me command) (ht : command.type = .msg)
    (h₁ : command.arg1 = some text) (hsent : messageOf env command me w = some (room, id))
    (ho : o ∈ (step w (env, e)).out) (hlive : o.line.carries = some (.live r)) :
    o.line.bytes = formatMsgReplyId maxLineLen id (w.client me).clientName text := by
  rw [step_eq_dispatch env hcmd (by simp [ht]), dispatch, ht] at ho
  simp only [handleMsg_out (w := { w with out := [], broadcasts := [] }) h₁ hsent, List.nil_append,
    List.mem_append,
    List.mem_map, List.mem_singleton] at ho
  rcases ho with ⟨fd, -, rfl⟩ | rfl
  · rfl
  · cases hlive

theorem mem_historyLines {room : Room} {line : Line} (h : line ∈ historyLines room)
    (hc : line.carries = some (.stored n id)) : room.roomName = n ∧
      ∃ m ∈ (historyScan room.history).reduceOption, m.id = id ∧ line.bytes = messageLine m := by
  unfold historyLines at h
  split_ifs at h
  · cases h
  · simp only [List.mem_append, List.mem_singleton, List.mem_map] at h
    rcases h with (rfl | ⟨m, hm, rfl⟩) | rfl
    · cases hc
    · cases hc
      exact ⟨rfl, m, hm, rfl, replayLine_eq m⟩
    · cases hc

theorem mem_historyReply {n' : Text} {cursor : ℤ} {limit : ℕ} {line : Line}
    (h : line ∈ historyReply env n' cursor limit db) (hc : line.carries = some (.stored n id)) :
    n' = n ∧ ∃ m ∈ (dbLoadHistoryBefore env n cursor limit db).1, m.id = id ∧
      line.bytes = messageLine m := by
  simp only [historyReply, List.mem_append, List.mem_singleton, List.mem_map] at h
  rcases h with (rfl | ⟨m, hm, rfl⟩) | rfl
  · cases hc
  · cases hc
    exact ⟨rfl, m, hm, rfl, rfl⟩
  · cases hc

theorem mem_welcome (ho : o ∈ (welcome conn me room w).out) :
    o ∈ w.out ∨ o.line.carries = none ∨ o.line ∈ historyLines (w.room room) := by
  simp only [welcome, World.notice, broadcast_eq, sendHistory_eq, replyOk_eq, reply_eq, emit_out,
    List.mem_append, List.mem_singleton, List.mem_map] at ho
  rcases ho with ((ho | rfl) | ⟨line, hline, rfl⟩) | ⟨fd, -, rfl⟩
  · exact .inl ho
  · exact .inr (.inl rfl)
  · exact .inr (.inr hline)
  · exact .inr (.inl rfl)

theorem mem_handleHistory (ho : o ∈ (handleHistory env command conn me
    { w with out := [], broadcasts := [] }).out) :
    ∃ n cursor limit, o.line.carries = none ∨ o.line ∈ historyReply env n cursor limit w.db := by
  unfold handleHistory at ho
  split at ho
  · obtain rfl := List.mem_singleton.mp ho
    exact ⟨[], 0, 0, .inl rfl⟩
  · rename_i n _
    simp only at ho
    split at ho
    · obtain rfl := List.mem_singleton.mp ho
      exact ⟨[], 0, 0, .inl rfl⟩
    · rw [connSend_eq, emit_out, List.nil_append] at ho
      obtain ⟨line, hline, rfl⟩ := List.mem_map.mp ho
      exact ⟨n, _, _, .inr hline⟩

theorem welcome_stored_line (hout : w'.out = []) (hreg : w'.reg = moveTo me room w.reg)
    (ho : o ∈ (welcome conn me room w').out) (hc : o.line.carries = some (.stored n id)) :
    (w.room room).roomName = n ∧ ∃ m ∈ (historyScan (w.room room).history).reduceOption,
      m.id = id ∧ o.line.bytes = messageLine m := by
  have hlines : historyLines (w'.room room) = historyLines (w.room room) := by
    rw [World.room, hreg]
    simp only [historyLines, moveTo_history, moveTo_roomName]
    rfl
  rcases mem_welcome ho with hnil | hnone | hline
  · rw [hout] at hnil
    cases hnil
  · rw [hnone] at hc
    cases hc
  · exact mem_historyLines (hlines ▸ hline) hc

/-- A replayed line is that of a message in the buffer of a live room, or of a row. -/
theorem step_stored_line (ho : o ∈ (step w (env, e)).out)
    (hc : o.line.carries = some (.stored n id)) : ∃ m, m.id = id ∧ o.line.bytes = messageLine m ∧
      ((∃ r ∈ w.reg.roomList, (w.room r).roomName = n ∧
        m ∈ (historyScan (w.room r).history).reduceOption) ∨
      ∃ row ∈ w.db.messages.rows, row.room = n ∧ m = row.load) := by
  obtain ⟨conn, me, command, hcmd, hdisc⟩ := carries_iff.mp ⟨o, ho, rfl, hc⟩
  have hshown : .stored n id ∈ shown env command me w := by
    rcases mem_discloses.mp hdisc with ⟨-, room, msgId, -, -, hlive⟩ | ⟨-, hshown⟩
    · cases hlive
    · exact hshown
  unfold shown at hshown
  split at hshown
  · rename_i ht
    unfold shownByJoin at hshown
    split at hshown
    · cases hshown
    · rename_i room hjoin
      have hjoin' : roomJoined command me { w with out := [], broadcasts := [] } = some room :=
          hjoin
      rw [step_eq_dispatch env hcmd (by simp [ht]), dispatch, ht] at ho
      simp only [handleJoin_of_joined hjoin'] at ho
      obtain ⟨hname, m, hm, hid, hbytes⟩ := welcome_stored_line rfl rfl ho hc
      exact ⟨m, hid, hbytes, .inl ⟨room, (roomJoined_some hjoin).1, hname, hm⟩⟩
  · rename_i ht
    unfold shownByAccept at hshown
    split at hshown
    · cases hshown
    · rename_i room haccept
      have haccept' : roomAccepted env command me { w with out := [], broadcasts := [] } =
          some room := haccept
      obtain ⟨db, heq⟩ := handleAccept_of_accepted conn haccept'
      obtain ⟨-, -, -, hlive, -⟩ := roomAccepted_some haccept
      rw [step_eq_dispatch env hcmd (by simp [ht]), dispatch, ht] at ho
      simp only [heq] at ho
      obtain ⟨hname, m, hm, hid, hbytes⟩ := welcome_stored_line rfl rfl ho hc
      exact ⟨m, hid, hbytes, .inl ⟨room, hlive, hname, hm⟩⟩
  · rename_i ht
    rw [step_eq_dispatch env hcmd (by simp [ht]), dispatch, ht] at ho
    obtain ⟨n', cursor, limit, hline⟩ := mem_handleHistory ho
    rcases hline with hnone | hline
    · rw [hnone] at hc
      cases hc
    · obtain ⟨rfl, m, hm, hid, hbytes⟩ := mem_historyReply hline hc
      obtain ⟨row, hrow, hroom, rfl⟩ := (mem_dbLoadHistoryBefore env _ cursor limit _).1 m hm
      exact ⟨_, hid, hbytes, .inr ⟨row, hrow, hroom, rfl⟩⟩
  · cases hshown

/-- An event is a MSG of a user that is accepted in a room under an id. -/
def Posts (env : Env) (w : World) (e : Event) (room : RoomPtr) (id : ℤ) (name text : Text) : Prop :=
  ∃ conn me command, Commands w e conn me command ∧ command.type = .msg ∧
    command.arg1 = some text ∧ messageOf env command me w = some (room, id) ∧
    (w.client me).clientName = name

theorem Posts.id_pos (h : Posts env w e room id name text) : 0 < id := by
  obtain ⟨conn, me, command, -, -, -, hsent, -⟩ := h
  obtain ⟨-, -, -, -, -, rfl⟩ := messageOf_iff_added.mp hsent
  exact roomAddHistory_id_pos

theorem Posts.copies (h : Posts env w e room id name text) (hunused : w.archive.Unused id) :
    (step w (env, e)).archive.Copies id name text := by
  obtain ⟨conn, me, command, hcmd, ht, h₁, hsent, rfl⟩ := h
  exact step_msg_copies hcmd ht h₁ hsent hunused

theorem Posts.live_line (h : Posts env w e room id name text) (ho : o ∈ (step w (env, e)).out)
    (hlive : o.line.carries = some (.live r)) :
    o.line.bytes = formatMsgReplyId maxLineLen id name text := by
  obtain ⟨conn, me, command, hcmd, ht, h₁, hsent, rfl⟩ := h
  exact step_live_line hcmd ht h₁ hsent ho hlive

theorem Posts.seq_lt (h : Posts env w e room id name text) (hsql : env.sql .saveMessage = .done) :
    w.db.messages.seq < id := by
  obtain ⟨conn, me, command, -, -, -, hsent, -⟩ := h
  obtain ⟨-, -, body, -, -, hadded⟩ := messageOf_iff_added.mp hsent
  rcases hadd : roomAddHistory env room (w.client me).clientName body w.db w.reg with ⟨i, db', reg'⟩
  rw [hadd] at hadded
  obtain rfl : i = id := hadded
  rw [id_of_added hsql hadd]
  exact (dbSaveMessage_done _ _ _ _ hsql).1

theorem Posts.unused (h : Posts env w e room id name text) (hw : w.archive.Backed)
    (hsql : env.sql .saveMessage = .done) : w.archive.Unused id := by
  have hseq := h.seq_lt hsql
  refine ⟨fun row hrow hid => ?_, fun r i hid => ?_⟩
  · exact absurd (w.db.messages.ids row hrow) (not_le.mpr (hid ▸ hseq))
  · exact absurd ((hw r).id_le i) (not_le.mpr (hid ▸ hseq))

theorem notGiven_of_saved {inputs : List (Env × Event)}
    (hrow : ∃ row ∈ w.db.messages.rows, row.id = id)
    (hsaved : ∀ input ∈ inputs, input.1.sql .saveMessage = .done) :
    Along step (NotGiven id) w inputs := by
  refine along_iff_forall.mpr fun pre input hpre conn me command room hcmd ht hsent => ?_
  obtain ⟨row, hrow, rfl⟩ := hrow
  obtain ⟨row', hrow', hid, -⟩ := run_keeps w pre row hrow
  obtain ⟨-, -, text, h₁, -⟩ := messageOf_iff_added.mp hsent
  have hposts : Posts input.1 (run step w pre) input.2 room row.id _ text :=
    ⟨conn, me, command, hcmd, ht, h₁, hsent, rfl⟩
  have hseq := hposts.seq_lt (hsaved input (hpre.subset (List.mem_append_right _
    (List.mem_singleton_self _))))
  exact absurd ((run step w pre).db.messages.ids row' hrow') (not_le.mpr (hid ▸ hseq))

/--
The line of an accepted MSG is the line replayed for its message, by a JOIN, an
ACCEPT or HISTORY and as long as nobody edited or deleted it, exactly if the
text fits in its field. The id is that of this message only, as it is whenever
messages are saved.
-/
theorem replay_eq_live_iff (cfg : Config) (db : Database) (start : ℤ)
    {before after : List (Env × Event)} {live replay : Output}
    (hposts : Posts env (run step (World.init cfg db start) before) e room id name text)
    (hid : Int64 id) (hunused : (run step (World.init cfg db start) before).archive.Unused id)
    (hlater : Along step (NotGiven id) (run step (World.init cfg db start) (before ++ [(env, e)]))
      after)
    (hlive : live ∈ (run step (World.init cfg db start) (before ++ [(env, e)])).out)
    (hsent : live.line.carries = some (.live room))
    (hreplay : replay ∈
      (run step (World.init cfg db start) (before ++ [(env, e)] ++ after ++ [(env', e')])).out)
    (hstored : replay.line.carries = some (.stored n id))
    (hkept : ∀ place m,
      (run step (World.init cfg db start) (before ++ [(env, e)] ++ after)).Holds place n m →
      m.id = id → m.deleted = false ∧ m.editedAt = 0) :
    replay.line.bytes = live.line.bytes ↔ text.length < maxTextLen := by
  have hname : name.length < maxUsernameLen := by
    obtain ⟨conn, me, command, -, -, -, -, rfl⟩ := hposts
    exact run_clientName_length cfg db start before me
  have hcopies : (run step (World.init cfg db start) (before ++ [(env, e)] ++ after)).archive.Copies
      id name text := by
    rw [run_append]
    refine run_invariant_along (I := fun w : World => w.archive.Copies id name text)
      (C := NotGiven id) (fun w input h hc => step_copies h hposts.id_pos hc) ?_ hlater
    rw [run_concat]
    exact hposts.copies hunused
  rw [run_concat] at hlive hreplay
  obtain ⟨m, rfl, hbytes, hfound⟩ := step_stored_line hreplay hstored
  have hm : m.deleted = false ∧ m.sender = strncpy maxUsernameLen name ∧
      m.text = strncpy maxTextLen text := by
    rcases hfound with ⟨r, hr, rfl, hscan⟩ | ⟨row, hrow, rfl, rfl⟩
    · obtain ⟨hdel, hedit⟩ := hkept _ m (.slot hr hscan (ne_zeroMessage_of_pos hposts.id_pos)) rfl
      obtain ⟨i, rfl⟩ := exists_slot_of_mem_scan hscan
      exact ⟨hdel, hcopies.slots r i rfl hdel hedit⟩
    · obtain ⟨hdel, hedit⟩ := hkept _ row.stored (.row hrow) rfl
      exact ⟨hdel, hcopies.rows row hrow rfl hdel hedit⟩
  obtain ⟨hdel, hsender, htext⟩ := hm
  rw [hbytes, hposts.live_line hlive hsent, messageLine, hdel, hsender, htext,
    strncpy_eq_self hname]
  exact cutLine_eq_iff hname hid

/-- Alice sends a message to the room she shares with Bob, and Bob enters it again. -/
def greetedRoom : List (Env × Event) :=
  sharedRoom ++ [(.calm 0 0 [], .line 4 "MSG hi".toList)]

def liveHi : Output := ⟨5, .rawSend, ⟨"MSG 1 alice hi\n".toList, some (.live 0)⟩⟩

def replayedHi : Output :=
  ⟨5, .rawSend, ⟨"MSG 1 alice hi\n".toList, some (.stored "lounge".toList 1)⟩⟩

theorem replay_eq_live_hi :
    replayedHi.line.bytes = liveHi.line.bytes ↔ "hi".toList.length < maxTextLen := by
  have hposts : Posts (.calm 0 0 []) (run step (World.init ⟨16, 64, 16, 10⟩ .empty 0) sharedRoom)
      (.line 4 "MSG hi".toList) 0 1 "alice".toList "hi".toList :=
    ⟨⟨4, some 0, false⟩, 0, parseLine "MSG hi".toList,
      ⟨_, rfl, by decide +kernel, rfl, rfl⟩, by decide, by decide +kernel, by decide +kernel,
      by decide +kernel⟩
  have hrows : ∀ row ∈
      (run step (World.init ⟨16, 64, 16, 10⟩ .empty 0) greetedRoom).db.messages.rows,
      row.stored.deleted = false ∧ row.stored.editedAt = 0 := by decide +kernel
  have hslots : ∀ r ∈ (run step (World.init ⟨16, 64, 16, 10⟩ .empty 0) greetedRoom).reg.roomList,
      ∀ m ∈ (historyScan ((run step (World.init ⟨16, 64, 16, 10⟩ .empty 0) greetedRoom).room
        r).history).reduceOption, m.deleted = false ∧ m.editedAt = 0 := by decide +kernel
  have hunused : (run step (World.init ⟨16, 64, 16, 10⟩ .empty 0) sharedRoom).archive.Unused 1 :=
    hposts.unused (run_backed _ _ _ (by decide +kernel)) rfl
  have hreplay : replayedHi ∈ (run step (World.init ⟨16, 64, 16, 10⟩ .empty 0)
      (greetedRoom ++ [] ++ [(.calm 0 0 [], .line 5 "JOIN lounge".toList)])).out := by
    decide +kernel
  have hstored : replayedHi.line.carries = some (.stored "lounge".toList 1) := rfl
  have hlater : Along step (NotGiven 1)
      (run step (World.init ⟨16, 64, 16, 10⟩ .empty 0) greetedRoom) [] := trivial
  refine replay_eq_live_iff ⟨16, 64, 16, 10⟩ .empty 0 hposts ⟨by decide, by decide⟩ hunused hlater
    ?_ rfl hreplay hstored fun place m hm _ => ?_
  · decide +kernel
  · cases place with
    | none =>
      obtain ⟨row, hrow, -, rfl⟩ := holds_none.mp hm
      exact hrows row hrow
    | some r =>
      obtain ⟨hr, -, hscan, -⟩ := holds_some.mp hm
      exact hslots r hr m hscan

/-- A text of four hundred bytes is replayed without its last byte. -/
theorem longText_replay_ne_live :
    ¬ ∀ live ∈ (run step (World.init ⟨16, 64, 16, 10⟩ .empty 0) (sharedRoom ++
        [(.calm 0 0 [], .line 4 ("MSG ".toList ++ List.replicate 400 'a'))])).out,
      ∀ replay ∈ (run step (World.init ⟨16, 64, 16, 10⟩ .empty 0) (sharedRoom ++
        [(.calm 0 0 [], .line 4 ("MSG ".toList ++ List.replicate 400 'a')),
         (.calm 0 0 [], .line 5 "JOIN lounge".toList)])).out,
      live.line.carries = some (.live 0) → replay.line.carries = some (.stored "lounge".toList 1) →
      replay.line.bytes = live.line.bytes := by
  decide +kernel

end ChatServer
