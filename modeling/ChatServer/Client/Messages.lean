import ChatServer.Client.ServerLine

/-! # Messages and events in the client

The lines the server formats for messages and events, the fields that the
client takes out of them, and what it shows of these. A user may have the name
that marks a delimiter of a history, a room may have a name that ends in a byte
the client strips, and a text may fit its line and not the buffer of the client.
-/

namespace ChatServer

open Library

/-- A line of the server that tells of a message or an event. -/
inductive SentLine where
  | msg (id : ℤ) (sender text : Text)
  | pm (sender text : Text)
  | notice (user action room : Text)
  | edited (id : ℤ) (newText : Text)
  | deleted (id : ℤ)
  | delimiter (started : Bool) (room : Text)
  deriving DecidableEq, Repr

namespace SentLine

/-- The line as its formatter prints it. -/
def line : SentLine → Text
  | .msg id sender text => formatMsgReplyId maxLineLen id sender text
  | .pm sender text => formatPmReply maxLineLen sender text
  | .notice user action room => formatNotice maxLineLen user action room
  | .edited id newText => formatEditedReply maxLineLen id newText
  | .deleted id => formatDeletedReply maxLineLen id
  | .delimiter true room => snprintf maxLineLen (lineOf ["NOTICE history START".toList, room])
  | .delimiter false room => snprintf maxLineLen (lineOf ["NOTICE history END".toList, room])

/-- The words of the line, the text of a message included. -/
def words : SentLine → List Text
  | .msg id sender text => [replyMsg, decimal id, sender, text]
  | .pm sender text => [replyPmFrom, sender, text]
  | .notice user action room => [replyNotice, user, action, room]
  | .edited id newText => [replyEdited, decimal id, newText]
  | .deleted id => [replyDeleted, decimal id]
  | .delimiter true room => ["NOTICE history START".toList, room]
  | .delimiter false room => ["NOTICE history END".toList, room]

/-- A text without newline and without carriage return at its end. -/
structure Body (text : Text) : Prop where
  ne : text ≠ []
  noNewline : '\n' ∉ text
  noReturn : text.getLast? ≠ some '\r'

/-- The fields are ones the server sends. -/
def Admissible : SentLine → Prop
  | .msg id sender text => 0 < id ∧ AcceptedName maxUsernameLen sender ∧ Body text
  | .pm sender text => AcceptedName maxUsernameLen sender ∧ Body text
  | .notice user action room =>
    AcceptedName maxUsernameLen user ∧ IsWord action ∧ AcceptedName maxRoomNameLen room
  | .edited id newText => 0 < id ∧ Body newText
  | .deleted id => 0 < id ∧ Int64 id
  | .delimiter _ room => AcceptedName maxRoomNameLen room

/-- A line of admissible fields that fits the buffer it is printed into. -/
structure Sendable (l : SentLine) : Prop where
  admissible : l.Admissible
  fits : (lineOf l.words).length < maxLineLen

/-- The fields of the line as the client keeps them. -/
def fields : SentLine → ServerLine
  | .msg id sender text => .msg (some (decimal id)) sender text
  | .pm sender text => .pmFrom sender text
  | .notice user action room => .notice user action room
  | .edited id newText => .edited (decimal id) newText
  | .deleted id => .deleted (decimal id)
  | .delimiter started room => .history started room

/-- The display of the fields in full. -/
def display (currentRoom : Text) : SentLine → Display
  | .msg id sender text =>
    .message (if currentRoom = [] then "?".toList else currentRoom) sender
      ("[".toList ++ decimal id ++ "] ".toList ++ text)
  | .pm sender text => .pm sender text
  | .notice user action room => .notice (noticeText user action room)
  | .edited id newText => .notice ("Message ".toList ++ decimal id ++ " edited: ".toList ++ newText)
  | .deleted id => .notice ("Message ".toList ++ decimal id ++ " deleted".toList)
  | .delimiter true room => .system ("--- last messages in ".toList ++ room ++ " ---".toList)
  | .delimiter false _ => .system "--- end of history ---".toList

/--
The client has the fields of the line, and shows them in full. Of a delimiter it
must only be known that it is not taken for a presence notice.
-/
def Recovered (l : SentLine) : Prop :=
  match l with
  | .delimiter _ _ => ∀ user action room, decodeLine l.line ≠ .notice user action room
  | _ => decodeLine l.line = l.fields ∧
    ∀ client, (handleServerLine l.line client).2 = [l.display client.currentRoom]

/--
A notice is not about a user called `history` and its room does not end in a
return, and what is shown of a message or a notice fits its buffer.
-/
def Plain : SentLine → Prop
  | .msg id _ text => (decimal id).length + text.length + 3 < maxTextLen + 32
  | .notice user action room => user ≠ "history".toList ∧ room.getLast? ≠ some '\r' ∧
    (noticeText user action room).length < 256
  | _ => True

theorem line_eq (l : SentLine) : l.line = snprintf maxLineLen (lineOf l.words) := by
  rcases l with _ | _ | _ | _ | _ | ⟨_ | _, _⟩ <;> rfl

end SentLine

open SentLine

variable {id : ℤ} {sender text user action room : Text}

theorem SentLine.Body.strip (h : Body text) : stripLine text = text :=
  (stripLine_eq_self_iff h.noNewline).mpr h.noReturn

theorem decodeLine_msg {n : ℕ} (hsender : IsWord sender) (hbody : Body text)
    (hfit : (lineOf [replyMsg, decimal n, sender, text]).length < maxLineLen) :
    decodeLine (formatMsgReplyId maxLineLen n sender text) =
      .msg (some (decimal n)) sender text := by
  have hword : IsWord replyMsg := ⟨by decide, by decide⟩
  rw [formatMsgReplyId, decodeLine_lineOf hword hfit, lineOf_cons_cons, lineOf_cons_cons,
    lineOf_singleton, stripLine_append _ _ (by decide), stripLine_append _ _ (by decide),
    stripLine_newline, hbody.strip]
  change decodeMsg _ = _
  have hne : sender ++ ' ' :: text ≠ [] := by simp
  rw [decodeMsg, strtokSpace_word (isWord_decimal n)]
  simp only [isNumeric_decimal, ne_eq, hne, not_false_eq_true, and_self, if_true]
  rw [strtokSpace_word hsender]

theorem decodeLine_pm (hsender : IsWord sender) (hbody : Body text)
    (hfit : (lineOf [replyPmFrom, sender, text]).length < maxLineLen) :
    decodeLine (formatPmReply maxLineLen sender text) = .pmFrom sender text := by
  have hword : IsWord replyPmFrom := ⟨by decide, by decide⟩
  rw [formatPmReply, decodeLine_lineOf hword hfit, lineOf_cons_cons, lineOf_singleton,
    stripLine_append _ _ (by decide), stripLine_newline, hbody.strip]
  rw [decodeFields, strtokSpace_word hsender]
  rfl

theorem decodeLine_edited {n : ℕ} (hbody : Body text)
    (hfit : (lineOf [replyEdited, decimal n, text]).length < maxLineLen) :
    decodeLine (formatEditedReply maxLineLen n text) = .edited (decimal n) text := by
  have hword : IsWord replyEdited := ⟨by decide, by decide⟩
  rw [formatEditedReply, decodeLine_lineOf hword hfit, lineOf_cons_cons, lineOf_singleton,
    stripLine_append _ _ (by decide), stripLine_newline, hbody.strip]
  rw [decodeFields, strtokSpace_word (isWord_decimal n)]
  rfl

theorem decodeLine_deleted {n : ℕ}
    (hfit : (lineOf [replyDeleted, decimal n]).length < maxLineLen) :
    decodeLine (formatDeletedReply maxLineLen n) = .deleted (decimal n) := by
  have hword : IsWord replyDeleted := ⟨by decide, by decide⟩
  have hdigit : ∀ c ∈ decimal (n : ℤ), c ≠ '\n' ∧ c ≠ '\r' := by
    refine fun c hc => ⟨?_, ?_⟩ <;>
      · rintro rfl
        exact absurd (isDigit_of_mem_decimal hc) (by decide)
  have hstrip : stripLine (decimal n) = decimal n :=
    (stripLine_eq_self_iff fun hc => (hdigit _ hc).1 rfl).mpr fun hlast =>
      (hdigit _ (List.mem_of_getLast? hlast)).2 rfl
  rw [formatDeletedReply, decodeLine_lineOf hword hfit, lineOf_singleton, stripLine_newline, hstrip]
  rw [decodeFields, strtokSpace_last (isWord_decimal n)]
  rfl

/-- A notice loses the returns at the end of its room, and its room if there is nothing else. -/
theorem decodeLine_notice (huser : IsWord user) (haction : IsWord action) (hroom : IsWord room)
    (hfit : (lineOf [replyNotice, user, action, room]).length < maxLineLen) :
    decodeLine (formatNotice maxLineLen user action room) =
      if stripLine room = [] then .silent
      else if user = "history".toList then
        .history (action = "START".toList) (stripLine room)
      else .notice user action (stripLine room) := by
  have hword : IsWord replyNotice := ⟨by decide, by decide⟩
  rw [formatNotice, decodeLine_lineOf hword hfit, lineOf_cons_cons, lineOf_cons_cons,
    lineOf_singleton, stripLine_append _ _ (by decide), stripLine_append _ _ (by decide),
    stripLine_newline]
  change decodeNotice _ = _
  have hrest : strtokSpace (stripLine room) =
      (if stripLine room = [] then none else some (stripLine room), []) := by
    split_ifs with hnil
    · rw [hnil, strtokSpace_nil]
    · refine strtokSpace_last ⟨hnil, fun hmem => hroom.noSpace ?_⟩
      exact (List.rdropWhile_prefix (p := _) room).subset hmem
  rw [decodeNotice, strtokSpace_word huser]
  simp only [strtokSpace_word haction, hrest]
  split_ifs with hnil hhistory
  · rfl
  · simp only [if_pos hhistory]
  · simp only [if_neg hhistory]

/-- A line whose fields the client has is recovered exactly if they are shown in full. -/
theorem recovered_of_decode {l : SentLine} (hdecode : decodeLine l.line = l.fields)
    (hdelimiter : ∀ started room, l ≠ .delimiter started room) :
    l.Recovered ↔ ∀ currentRoom, l.fields.shown currentRoom = [l.display currentRoom] := by
  have hshown : (∀ client, (handleServerLine l.line client).2 = [l.display client.currentRoom]) ↔
      ∀ currentRoom, l.fields.shown currentRoom = [l.display currentRoom] := by
    simp only [handleServerLine, hdecode]
    exact ⟨fun h currentRoom => h { currentRoom }, fun h client => h client.currentRoom⟩
  cases l with
  | delimiter started room => exact absurd rfl (hdelimiter started room)
  | _ => exact (and_iff_right hdecode).trans hshown

theorem shown_msg_iff : (∀ currentRoom, (SentLine.msg id sender text).fields.shown currentRoom =
    [(SentLine.msg id sender text).display currentRoom]) ↔
      (decimal id).length + text.length + 3 < maxTextLen + 32 := by
  have hcut := snprintf_eq_self_iff (s := "[".toList ++ decimal id ++ "] ".toList ++ text)
    (show 0 < maxTextLen + 32 by decide)
  simp only [fields, ServerLine.shown, display, List.cons.injEq, Display.message.injEq, true_and,
    and_true, forall_const]
  rw [hcut]
  simp only [List.length_append, show "[".toList.length = 1 from rfl,
    show "] ".toList.length = 2 from rfl]
  omega

theorem shown_edited (hfit : (lineOf [replyEdited, decimal id, text]).length < maxLineLen)
    (currentRoom : Text) : (SentLine.edited id text).fields.shown currentRoom =
      [(SentLine.edited id text).display currentRoom] := by
  have hcut : snprintf 512 ("Message ".toList ++ decimal id ++ " edited: ".toList ++ text) =
      "Message ".toList ++ decimal id ++ " edited: ".toList ++ text := by
    refine (snprintf_eq_self_iff (by decide)).mpr ?_
    rw [length_lineOf] at hfit
    simp only [List.map_cons, List.map_nil, List.sum_cons, List.sum_nil, maxLineLen,
      show replyEdited.length = 14 from rfl] at hfit
    simp only [List.length_append, show "Message ".toList.length = 8 from rfl,
      show " edited: ".toList.length = 9 from rfl]
    omega
  simp only [fields, ServerLine.shown, display, hcut]

theorem shown_deleted (hid : Int64 id) (currentRoom : Text) :
    (SentLine.deleted id).fields.shown currentRoom =
      [(SentLine.deleted id).display currentRoom] := by
  have hcut : snprintf 256 ("Message ".toList ++ decimal id ++ " deleted".toList) =
      "Message ".toList ++ decimal id ++ " deleted".toList := by
    refine (snprintf_eq_self_iff (by decide)).mpr ?_
    have hdecimal := length_decimal_of_int64 hid
    simp only [List.length_append, show "Message ".toList.length = 8 from rfl,
      show " deleted".toList.length = 8 from rfl]
    omega
  simp only [fields, ServerLine.shown, display, hcut]

theorem shown_notice_iff :
    (∀ currentRoom, (SentLine.notice user action room).fields.shown currentRoom =
      [(SentLine.notice user action room).display currentRoom]) ↔
      (noticeText user action room).length < 256 := by
  simp only [fields, ServerLine.shown, display, noticeShown, List.cons.injEq, Display.notice.injEq,
    and_true, forall_const]
  exact snprintf_eq_self_iff (by decide)

/-- A notice is recovered if the client has its user and its room, and it is shown in full. -/
theorem recovered_notice_iff (huser : IsWord user) (haction : IsWord action)
    (hroom : AcceptedName maxRoomNameLen room)
    (hfit : (lineOf [replyNotice, user, action, room]).length < maxLineLen) :
    (SentLine.notice user action room).Recovered ↔ (SentLine.notice user action room).Plain := by
  have hdecode := decodeLine_notice huser haction hroom.toIsWord hfit
  have hplain : decodeLine (SentLine.notice user action room).line =
      (SentLine.notice user action room).fields ↔
        user ≠ "history".toList ∧ room.getLast? ≠ some '\r' := by
    rw [line, hdecode, ← stripLine_eq_self_iff hroom.noNewline, fields]
    split_ifs with hnil hhistory
    · simp [hnil, hroom.ne.symm]
    · simp [hhistory]
    · simp only [ServerLine.notice.injEq, true_and, ne_eq, hhistory, not_false_eq_true]
  rw [Plain, ← and_assoc, ← hplain]
  by_cases hkept : decodeLine (SentLine.notice user action room).line =
      (SentLine.notice user action room).fields
  · exact ((recovered_of_decode hkept (by simp)).trans shown_notice_iff).trans
      (and_iff_right hkept).symm
  · exact iff_of_false (fun h => hkept h.1) fun h => hkept h.1

theorem recovered_delimiter {started : Bool} (hroom : IsWord room)
    (hfit : (lineOf (SentLine.delimiter started room).words).length < maxLineLen) :
    (SentLine.delimiter started room).Recovered := by
  intro user action room'
  have hhistory : IsWord "history".toList := ⟨by decide, by decide⟩
  have hmark : IsWord (if started then "START".toList else "END".toList) := by
    cases started <;> exact ⟨by decide, by decide⟩
  have hwords : lineOf (SentLine.delimiter started room).words =
      lineOf [replyNotice, "history".toList,
        if started then "START".toList else "END".toList, room] := by
    cases started <;> rfl
  rw [hwords] at hfit
  rw [line_eq, hwords]
  have hdecode := decodeLine_notice hhistory hmark hroom hfit
  rw [formatNotice] at hdecode
  rw [hdecode, if_pos (rfl : "history".toList = _)]
  split_ifs <;> simp

/--
The client takes back the fields of every line and shows them in full, but of a
message too long for its buffer with the id, of a notice about a user called
`history`, of one about a room whose name ends in a return, and of one that is
too long for its buffer.
-/
theorem recovered_iff (l : SentLine) (h : l.Sendable) : l.Recovered ↔ l.Plain := by
  obtain ⟨hfields, hfit⟩ := h
  cases l with
  | msg id sender text =>
    obtain ⟨hid, hsender, hbody⟩ := hfields
    obtain ⟨n, rfl⟩ := Int.eq_ofNat_of_zero_le (Int.le_of_lt hid)
    have hdecode : decodeLine (SentLine.msg n sender text).line =
        (SentLine.msg n sender text).fields :=
      decodeLine_msg hsender.toIsWord hbody hfit
    exact (recovered_of_decode hdecode (by simp)).trans shown_msg_iff
  | pm sender text =>
    have hdecode : decodeLine (SentLine.pm sender text).line = (SentLine.pm sender text).fields :=
      decodeLine_pm hfields.1.toIsWord hfields.2 hfit
    exact (recovered_of_decode hdecode (by simp)).trans (iff_of_true (fun _ => rfl) trivial)
  | notice user action room =>
    exact recovered_notice_iff hfields.1.toIsWord hfields.2.1 hfields.2.2 hfit
  | edited id newText =>
    obtain ⟨hid, hbody⟩ := hfields
    obtain ⟨n, rfl⟩ := Int.eq_ofNat_of_zero_le (Int.le_of_lt hid)
    have hdecode : decodeLine (SentLine.edited n newText).line =
        (SentLine.edited n newText).fields :=
      decodeLine_edited hbody hfit
    exact (recovered_of_decode hdecode (by simp)).trans (iff_of_true (shown_edited hfit) trivial)
  | deleted id =>
    obtain ⟨hid, hwide⟩ := hfields
    obtain ⟨n, rfl⟩ := Int.eq_ofNat_of_zero_le (Int.le_of_lt hid)
    have hdecode : decodeLine (SentLine.deleted n).line = (SentLine.deleted n).fields :=
      decodeLine_deleted hfit
    exact (recovered_of_decode hdecode (by simp)).trans (iff_of_true (shown_deleted hwide) trivial)
  | delimiter started room => exact iff_of_true (recovered_delimiter hfields.toIsWord hfit) trivial

/-- A message of alice. -/
theorem hello_recovered : (SentLine.msg 7 "alice".toList " hello".toList).Recovered :=
  (recovered_iff (.msg 7 "alice".toList " hello".toList)
    ⟨⟨by decide, ⟨⟨by decide, by decide⟩, by decide, by decide, by decide⟩,
      ⟨by decide, by decide, by decide⟩⟩, by decide⟩).mpr (by unfold Plain; decide)

/-- A user called `history` enters a room, and the client takes it for the end of a history. -/
theorem history_not_recovered :
    (SentLine.notice "history".toList okJoined "lounge".toList).Sendable ∧
      decodeLine (SentLine.notice "history".toList okJoined "lounge".toList).line =
        .history false "lounge".toList ∧
      ¬ (SentLine.notice "history".toList okJoined "lounge".toList).Recovered := by
  refine ⟨⟨⟨⟨⟨by decide, by decide⟩, by decide, by decide, by decide⟩, ⟨by decide, by decide⟩,
    ⟨⟨by decide, by decide⟩, by decide, by decide, by decide⟩⟩, by decide⟩, by decide, fun h => ?_⟩
  exact absurd h.1 (by decide)

end ChatServer
