import ChatServer.Protocol.Fields
import ChatServer.Replies.Grammar
import ChatServer.Replies.Lists
import ChatServer.Replies.Tidy

/-! # Each line sent is one line

Each string handed to `conn_send`, `send` or `room_broadcast` ends with a newline
and holds no other, unless the text of a MSG, EDIT or PM, or the list of a ROOMS
or WHO, leaves no room for the newline in the buffer of the line.
-/

namespace ChatServer

open Library World

/-- A text ends with a newline and holds no other. -/
def OneLine (t : Text) : Prop := t.getLast? = some '\n' ∧ '\n' ∉ t.dropLast

instance (t : Text) : Decidable (OneLine t) := inferInstanceAs (Decidable (_ ∧ _))

/-- The clocks and the ids of messages are numbers of 64 bits. -/
structure Wide (env : Env) (w : World) : Prop where
  now : Int64 env.now
  uptimeStart : Int64 w.uptimeStart
  rows : ∀ row ∈ w.db.messages.rows, Int64 row.id
  slots : ∀ r i, Int64 ((w.room r).history.slots i).id

/-- The length at which the entries of a page end, printed from an offset on. -/
def pageEnd : ℕ → List Text → ℕ
  | off, [] => off
  | off, entry :: entries =>
    if maxLineLen - 32 ≤ off + entry.length then off + entry.length
    else pageEnd (off + entry.length) entries

/-- The length of a list reply, newline included, in a buffer without an end. -/
def listLength (word : Text) (entries : List Text) (command : Cmd) : ℕ :=
  if (pagingOf command).used then
    pageEnd (pageHeader word entries.length command).length (pageOf entries command) + 1
  else word.length + printedLen entries + 1

section Length

variable (env : Env) (command : Cmd) (me : ClientPtr) (w : World)

/-- The length of a command's long line in a buffer without an end. -/
def longLength : Option ℕ :=
  match command.type with
  | .msg =>
    match messageOf env command me w, command.arg1 with
    | some (_, msgId), some text =>
      some (6 + (decimal msgId).length + (w.client me).clientName.length + text.length + 1)
    | _, _ => none
  | .edit =>
    (editOf env command me w).map fun p => 16 + (decimal p.2.1).length + p.2.2.length + 1
  | .pm => (privateOf env command me w).map fun p =>
      9 + (w.client me).clientName.length + p.2.length + 1
  | .rooms => some (listLength replyRooms
      (w.reg.roomList.map fun r => ' ' :: (w.room r).roomName) command)
  | .who => (w.client me).currentRoom.map fun room =>
      listLength replyWho (whoEntries w.reg room) command
  | _ => none

/-- The long line of an event fits in its buffer, if there is one. -/
def LineFits (e : Event) : Prop :=
  ∀ conn me command, Commands w e conn me command →
    ∀ n, longLength env command me w = some n → n < maxLineLen

end Length

theorem oneLine_concat {body : Text} (h : '\n' ∉ body) : OneLine (body ++ ['\n']) := by
  simpa [OneLine] using h

theorem oneLine_snprintf {t : Text} (h : OneLine t) :
    OneLine (snprintf maxLineLen t) ↔ t.length < maxLineLen := by
  obtain ⟨hlast, hbody⟩ := h
  constructor
  · rintro ⟨hcut, -⟩
    by_contra hlong
    refine hbody ?_
    have hmem : '\n' ∈ t.take 511 := List.mem_of_getLast? hcut
    have hprefix : t.take 511 <+: t.dropLast := by
      rw [List.dropLast_eq_take]
      exact List.take_prefix_take_left (by unfold maxLineLen at hlong; omega)
    exact hprefix.subset hmem
  · intro hfit
    rw [snprintf, List.take_of_length_le (by omega)]
    exact ⟨hlast, hbody⟩

theorem newline_not_mem_decimal (n : ℤ) : '\n' ∉ decimal n := by
  have hdigit : ∀ k : ℕ, '\n' ∉ Nat.toDigits 10 k := fun k h =>
    absurd (Nat.isDigit_of_mem_toDigits (by decide) (by decide) h) (by decide)
  unfold decimal
  split_ifs
  · simpa using hdigit _
  · exact hdigit _

theorem length_decimal_sub {a b : ℤ} (ha : Int64 a) (hb : Int64 b) :
    (decimal (a - b)).length ≤ 21 := by
  obtain ⟨halo, hahi⟩ := ha
  obtain ⟨hblo, hbhi⟩ := hb
  exact length_decimal_of_natAbs (k := 20) (by decide) (by omega)

theorem int64_atoll (s : Text) : Int64 (atoll s) := by
  unfold Int64 atoll
  omega

theorem newline_not_mem_intercalate {words : List Text} (h : ∀ word ∈ words, '\n' ∉ word) :
    '\n' ∉ [' '].intercalate words := by
  induction words with
  | nil => simp [List.intercalate]
  | cons word words ih =>
    obtain ⟨hword, hwords⟩ := List.forall_mem_cons.mp h
    cases words with
    | nil => simpa [List.intercalate] using hword
    | cons word' words =>
      rw [List.intercalate_cons_cons]
      simpa [hword] using ih hwords

theorem oneLine_lineOf {words : List Text} (h : ∀ word ∈ words, '\n' ∉ word) :
    OneLine (lineOf words) := oneLine_concat (newline_not_mem_intercalate h)

theorem oneLine_print {word : Text} {words : List Text}
    (h : ∀ t ∈ word :: words, '\n' ∉ t)
    (hlen : ((word :: words).map fun t => t.length + 1).sum < maxLineLen) :
    OneLine (snprintf maxLineLen (lineOf (word :: words))) :=
  (oneLine_snprintf (oneLine_lineOf h)).mpr (length_lineOf word words ▸ hlen)

section Lists

variable {b : ListBuf} {s piece : Text} {entries : List Text} {command : Cmd} {word : Text}

namespace ListBuf

theorem Holds.printGuarded (h : b.Holds s) (entries : List Text) :
    ∃ shown, shown <+: entries ∧ (ListBuf.printGuarded entries b).Holds (s ++ shown.flatten) ∧
      (s ++ shown.flatten).length = pageEnd s.length entries := by
  induction entries generalizing b s with
  | nil => exact ⟨[], List.prefix_rfl, by simpa [ListBuf.printGuarded] using h, by simp [pageEnd]⟩
  | cons entry entries ih =>
    have hprint := h.print entry
    have hoff : (b.print entry).off = s.length + entry.length := by
      rw [hprint.2, List.length_append]
    rw [ListBuf.printGuarded, pageEnd, hoff]
    split_ifs with hge
    · refine ⟨[entry], ?_, ?_, ?_⟩
      · exact List.cons_prefix_cons.mpr ⟨rfl, List.nil_prefix⟩
      · simpa using hprint
      · simp
    · obtain ⟨shown, hshown, hholds, hlen⟩ := ih hprint
      refine ⟨entry :: shown, List.cons_prefix_cons.mpr ⟨rfl, hshown⟩, ?_, ?_⟩
      · simpa using hholds
      · simpa [Nat.add_assoc] using hlen

/-- A finished list is one line exactly if its newline fits. -/
theorem Holds.oneLine_iff (h : b.Holds s) (hs : '\n' ∉ s) :
    OneLine (b.print ['\n']).text ↔ s.length + 1 < maxLineLen := by
  rw [(h.print ['\n']).1, oneLine_snprintf (oneLine_concat hs), List.length_append,
    List.length_singleton]

end ListBuf

theorem newline_not_mem_pageHeader (hword : '\n' ∉ word) (total : ℕ) :
    '\n' ∉ pageHeader word total command := by
  refine newline_not_mem_intercalate ?_
  simp only [List.forall_mem_cons, List.not_mem_nil, false_imp_iff, implies_true, and_true]
  exact ⟨hword, newline_not_mem_decimal _, newline_not_mem_decimal _, newline_not_mem_decimal _⟩

theorem newline_not_mem_append_flatten {shown : List Text} (hs : '\n' ∉ s)
    (hentries : ∀ entry ∈ entries, '\n' ∉ entry) (hshown : ∀ entry ∈ shown, entry ∈ entries) :
    '\n' ∉ s ++ shown.flatten := by
  rw [List.mem_append, List.mem_flatten]
  rintro (h | ⟨entry, hentry, h⟩)
  · exact hs h
  · exact hentries entry (hshown entry hentry) h

theorem oneLine_listReply (hword : '\n' ∉ word) (hentries : ∀ entry ∈ entries, '\n' ∉ entry) :
    OneLine (listReply word entries command).text ↔
      listLength word entries command < maxLineLen := by
  unfold listReply listLength
  simp only
  split_ifs
  · have hheader : '\n' ∉ pageHeader word entries.length command :=
      newline_not_mem_pageHeader hword _
    have hpage : ∀ entry ∈ pageOf entries command, '\n' ∉ entry :=
      fun entry hentry => hentries entry (mem_of_mem_pageOf hentry)
    obtain ⟨shown, hshown, hholds, hlen⟩ := (ListBuf.holds_empty.print
      (pageHeader word entries.length command)).printGuarded (pageOf entries command)
    have hnl := newline_not_mem_append_flatten hheader hpage fun _ h => hshown.subset h
    rw [List.nil_append] at hholds hlen
    rw [← hlen]
    exact hholds.oneLine_iff hnl
  · have hholds := (ListBuf.holds_empty.print word).printAll entries
    have hnl := newline_not_mem_append_flatten hword hentries fun _ => id
    rw [List.nil_append] at hholds
    rw [hholds.oneLine_iff hnl, List.length_append, List.length_flatten, printedLen]

theorem pageEnd_lt {off k : ℕ} (hoff : off < maxLineLen - 32)
    (h : ∀ entry ∈ entries, entry.length ≤ k) : pageEnd off entries < maxLineLen - 32 + k := by
  induction entries generalizing off with
  | nil => rw [pageEnd]; omega
  | cons entry entries ih =>
    obtain ⟨hentry, hrest⟩ := List.forall_mem_cons.mp h
    rw [pageEnd]
    split_ifs with hge
    · omega
    · exact ih (not_le.mp hge) hrest

end Lists

section Short

variable {env : Env} {w : World} {t : Text}

/-- A reply of a few short words. -/
theorem oneLine_words {word : Text} {words : List Text} (hcount : words.length ≤ 10)
    (h : ∀ t ∈ word :: words, '\n' ∉ t ∧ t.length ≤ 40) :
    OneLine (snprintf maxLineLen (lineOf (word :: words))) := by
  refine oneLine_print (fun t ht => (h t ht).1) ?_
  have hsum : ∀ ts : List Text, (∀ t ∈ ts, '\n' ∉ t ∧ t.length ≤ 40) →
      (ts.map fun t => t.length + 1).sum ≤ 41 * ts.length := by
    intro ts hts
    induction ts with
    | nil => exact Nat.zero_le _
    | cons t ts ih =>
      obtain ⟨⟨-, ht⟩, hts⟩ := List.forall_mem_cons.mp hts
      have := ih hts
      rw [List.map_cons, List.sum_cons, List.length_cons]
      omega
  have := hsum _ h
  rw [List.length_cons] at this
  unfold maxLineLen
  omega

theorem oneLine_two {word arg : Text} (hword : '\n' ∉ word ∧ word.length ≤ 40)
    (harg : '\n' ∉ arg ∧ arg.length ≤ 40) : OneLine (snprintf maxLineLen (lineOf [word, arg])) :=
  oneLine_words (by simp) (by simp [hword, harg])

theorem oneLine_three {word a b : Text} (hword : '\n' ∉ word ∧ word.length ≤ 40)
    (ha : '\n' ∉ a ∧ a.length ≤ 40) (hb : '\n' ∉ b ∧ b.length ≤ 40) :
    OneLine (snprintf maxLineLen (lineOf [word, a, b])) :=
  oneLine_words (by simp) (by simp [hword, ha, hb])

theorem oneLine_message {m : Message} (hm : m.Tidy) (hid : Int64 m.id) :
    OneLine (snprintf maxLineLen (lineOf [replyMsg, decimal m.id, m.sender,
      if m.deleted then "[deleted]".toList else m.text])) := by
  have htext : '\n' ∉ (if m.deleted then "[deleted]".toList else m.text) ∧
      (if m.deleted then "[deleted]".toList else m.text).length < maxTextLen := by
    split_ifs
    · exact ⟨by decide, by decide⟩
    · exact ⟨hm.text.2, hm.text.1⟩
  generalize (if m.deleted then "[deleted]".toList else m.text) = text at htext
  obtain ⟨hnl, hlen⟩ := htext
  have hdec := length_decimal_of_int64 hid
  have hsender := hm.sender.1
  refine oneLine_print ?_ ?_
  · simp only [List.forall_mem_cons, List.not_mem_nil, false_imp_iff, implies_true, and_true]
    exact ⟨by decide, newline_not_mem_decimal _, hm.sender.2, hnl⟩
  · simp only [List.map_cons, List.map_nil, List.sum_cons, List.sum_nil, maxLineLen,
      show replyMsg.length = 3 from rfl]
    unfold maxTextLen at hlen
    omega

theorem exists_slot_of_mem_scan {h : Library.RingBuffer Message} {m : Message}
    (hm : m ∈ (historyScan h).reduceOption) : ∃ i, m = h.slots i := by
  obtain ⟨i, -, hi⟩ := List.mem_map.mp (List.reduceOption_mem_iff.mp hm)
  unfold historyRead at hi
  split_ifs at hi
  exact ⟨_, (Option.some.inj hi).symm⟩

theorem replayLine_eq (m : Message) : replayLine m = snprintf maxLineLen (lineOf [replyMsg,
    decimal m.id, m.sender, if m.deleted then "[deleted]".toList else m.text]) := by
  unfold replayLine formatMsgReplyId
  split_ifs <;> rfl

theorem oneLine_replay {room : Room} {line : Line} (hroom : room.shelf.Tidy)
    (hids : ∀ i, Int64 (room.history.slots i).id) (h : line ∈ historyLines room) :
    OneLine line.bytes := by
  have htitle : TidyName room.roomName := hroom.roomName
  unfold historyLines at h
  split_ifs at h
  · cases h
  · simp only [List.mem_append, List.mem_singleton] at h
    rcases h with (rfl | h) | rfl
    · exact oneLine_two (by decide) ⟨htitle.2, htitle.1.le.trans (by decide)⟩
    · obtain ⟨m, hm, rfl⟩ := List.mem_map.mp h
      obtain ⟨i, rfl⟩ := exists_slot_of_mem_scan hm
      simp only [replayLine_eq]
      exact oneLine_message (hroom.slots i) (hids i)
    · exact oneLine_two (by decide) ⟨htitle.2, htitle.1.le.trans (by decide)⟩

theorem mem_dbLoadHistoryBefore (env : Env) (n : Text) (cursor : ℤ) (limit : ℕ) (db : Database) :
    (∀ m ∈ (dbLoadHistoryBefore env n cursor limit db).1,
      ∃ row ∈ db.messages.rows, row.room = n ∧ m = row.load) ∧
      (dbLoadHistoryBefore env n cursor limit db).1.length ≤ limit ∧
      ((dbLoadHistoryBefore env n cursor limit db).2 = 0 ∨
        ∃ row ∈ db.messages.rows, (dbLoadHistoryBefore env n cursor limit db).2 = row.id) := by
  rw [dbLoadHistoryBefore_eq]
  split_ifs with hlimit
  · simp
  · simp only
    generalize hsel : ((env.sql .loadHistoryBefore).rows _).take (min limit 256) = selected
    have hrow : ∀ row ∈ selected, row ∈ db.messages.rows ∧ row.room = n := by
      intro row hrow
      rw [← hsel] at hrow
      have h := List.mem_of_mem_take (Sql.mem_of_mem_rows (List.mem_of_mem_take hrow))
      obtain ⟨hmem, hroom⟩ := List.mem_filter.mp (List.mem_filter.mp (List.mem_reverse.mp h)).1
      exact ⟨hmem, of_decide_eq_true hroom⟩
    refine ⟨?_, ?_, ?_⟩
    · intro m hm
      obtain ⟨row, hmem, rfl⟩ := List.mem_map.mp hm
      obtain ⟨hin, hroom⟩ := hrow row (List.mem_reverse.mp hmem)
      exact ⟨row, hin, hroom, rfl⟩
    · rw [List.length_map, List.length_reverse, ← hsel]
      exact (List.length_take_le _ _).trans (min_le_left _ _)
    · cases hfirst : (selected.reverse.map MessageRow.load).head? with
      | none => exact .inl rfl
      | some m =>
        obtain ⟨row, hmem, rfl⟩ := List.mem_map.mp (List.mem_of_mem_head? hfirst)
        exact .inr ⟨row, (hrow row (List.mem_reverse.mp hmem)).1, rfl⟩

theorem oneLine_history {n : Text} {cursor : ℤ} {limit : ℕ} {db : Database} {line : Line}
    (hn : TidyName n) (hlimit : limit ≤ 100) (hrows : ∀ row ∈ db.messages.rows, row.Tidy)
    (hids : ∀ row ∈ db.messages.rows, Int64 row.id)
    (h : line ∈ historyReply env n cursor limit db) : OneLine line.bytes := by
  obtain ⟨hpage, hlen, hnext⟩ := mem_dbLoadHistoryBefore env n cursor limit db
  unfold historyReply at h
  rcases hload : dbLoadHistoryBefore env n cursor limit db with ⟨hist, next⟩
  rw [hload] at hpage hlen hnext
  simp only [hload, List.mem_append, List.mem_singleton] at h
  have hnext64 : (decimal next).length ≤ 20 := by
    rcases hnext with h0 | ⟨row, hrow, hid⟩
    · obtain rfl : next = 0 := h0
      exact length_decimal_of_int64 ⟨by decide, by decide⟩
    · obtain rfl : next = row.id := hid
      exact length_decimal_of_int64 (hids row hrow)
  have hcount : (decimal hist.length).length ≤ 3 :=
    length_decimal_le (by decide) (lt_of_le_of_lt (hlen.trans hlimit) (by decide))
  have hname := hn.1
  rcases h with (rfl | h) | rfl
  · refine oneLine_print ?_ ?_
    · simp only [List.forall_mem_cons, List.not_mem_nil, false_imp_iff, implies_true, and_true]
      exact ⟨by decide, hn.2, newline_not_mem_decimal _, newline_not_mem_decimal _⟩
    · simp only [List.map_cons, List.map_nil, List.sum_cons, List.sum_nil, maxLineLen,
        show replyHistory.length = 13 from rfl]
      omega
  · obtain ⟨m, hm, rfl⟩ := List.mem_map.mp h
    obtain ⟨row, hrow, -, rfl⟩ := hpage m hm
    exact oneLine_message (hrows row hrow).load (hids row hrow)
  · refine oneLine_print ?_ ?_
    · simp only [List.forall_mem_cons, List.not_mem_nil, false_imp_iff, implies_true, and_true]
      exact ⟨by decide, hn.2, newline_not_mem_decimal _⟩
    · simp only [List.map_cons, List.map_nil, List.sum_cons, List.sum_nil, maxLineLen,
        show ("END_HISTORY".toList).length = 11 from rfl]
      omega

theorem oneLine_sessions {user : Text} {db : Database} (hdb : ∀ s ∈ db.sessions.rows, s.Tidy) :
    OneLine (sessionsReply env user db).text := by
  have hcount := length_decimal_le (k := 2) (by decide)
    ((length_sessionListForUser env user db).trans_lt (by decide : 16 < 10 ^ 2))
  have htoken : ∀ s ∈ sessionListForUser env user maxSessionsPerUser db, '\n' ∉ s.token := by
    intro s hs
    obtain ⟨row, hrow, rfl⟩ := List.mem_map.mp hs
    have hmem := List.mem_of_mem_take (Sql.mem_of_mem_rows hrow)
    rw [List.mem_insertionSort] at hmem
    exact not_mem_strncpy (hdb row (List.mem_filter.mp hmem).1).token
  unfold sessionsReply
  simp only
  generalize sessionListForUser env user maxSessionsPerUser db = sessions at hcount htoken
  have hheader : '\n' ∉ [' '].intercalate [replySessions, decimal sessions.length] := by
    refine newline_not_mem_intercalate ?_
    simp only [List.forall_mem_cons, List.not_mem_nil, false_imp_iff, implies_true, and_true]
    exact ⟨by decide, newline_not_mem_decimal _⟩
  have hlen : ([' '].intercalate [replySessions, decimal sessions.length]).length ≤ 17 := by
    have hline := length_lineOf replySessions [decimal sessions.length]
    simp only [lineOf, List.length_append, List.length_singleton, List.map_cons, List.map_nil,
      List.sum_cons, List.sum_nil, show replySessions.length = 14 from rfl] at hline
    omega
  have hentries : ∀ entry ∈ sessions.map fun s => ' ' :: s.token.take 8 ++ "...".toList,
      '\n' ∉ entry ∧ entry.length ≤ 12 := by
    intro entry hentry
    obtain ⟨s, hs, rfl⟩ := List.mem_map.mp hentry
    have hcut : '\n' ∉ s.token.take 8 := fun h => htoken s hs (List.mem_of_mem_take h)
    have htake := List.length_take_le 8 s.token
    refine ⟨by simpa using hcut, ?_⟩
    simp only [List.length_cons, List.length_append, show ("...".toList).length = 3 from rfl]
    omega
  obtain ⟨shown, hshown, hholds, hend⟩ := (ListBuf.holds_empty.print
    ([' '].intercalate [replySessions, decimal sessions.length])).printGuarded
      (sessions.map fun s => ' ' :: s.token.take 8 ++ "...".toList)
  rw [List.nil_append] at hholds hend
  have hnl := newline_not_mem_append_flatten hheader (fun entry h => (hentries entry h).1)
    fun _ h => hshown.subset h
  have hoff : ([' '].intercalate [replySessions, decimal sessions.length]).length <
      maxLineLen - 32 := by
    unfold maxLineLen
    omega
  have hfit := pageEnd_lt hoff fun entry h => (hentries entry h).2
  refine (hholds.oneLine_iff hnl).mpr ?_
  rw [hend]
  unfold maxLineLen at hfit ⊢
  omega

theorem oneLine_okSession {status token : Text} (hstatus : Plain status)
    (htoken : token.length = 64 ∧ '\n' ∉ token) :
    OneLine (formatOkSession maxLineLen status token) := by
  unfold formatOkSession
  split_ifs
  · exact oneLine_two (by decide) ⟨hstatus.2, hstatus.1.trans (by decide)⟩
  · refine oneLine_print ?_ ?_
    · simpa only [List.forall_mem_cons, List.not_mem_nil, false_imp_iff, implies_true, and_true]
        using ⟨by decide, hstatus.2, htoken.2⟩
    · have h₁ := hstatus.1
      have h₂ := htoken.1
      simp only [List.map_cons, List.map_nil, List.sum_cons, List.sum_nil, maxLineLen,
        show replyOk.length = 2 from rfl]
      omega

theorem oneLine_health (hwide : Wide env w) :
    OneLine (snprintf maxLineLen (lineOf ["OK HEALTH".toList,
      "uptime=".toList ++ decimal (env.now - w.uptimeStart), "active=0".toList])) := by
  have hdec := length_decimal_sub hwide.now hwide.uptimeStart
  refine oneLine_three (by decide) ⟨?_, ?_⟩ (by decide)
  · rw [List.mem_append, not_or]
    exact ⟨by decide, newline_not_mem_decimal _⟩
  · rw [List.length_append, show ("uptime=".toList).length = 7 from rfl]
    omega

/-- Every short line of a tidy state is one line. -/
theorem Short.oneLine (hw : w.Tidy) (henv : env.Tidy) (hwide : Wide env w) (h : Short env w t) :
    OneLine t := by
  have hname (c : ClientPtr) : '\n' ∉ (w.client c).clientName ∧
      (w.client c).clientName.length ≤ 40 :=
    ⟨(hw.names c).2, (hw.names c).1.le.trans (by decide)⟩
  have htitle (r : RoomPtr) : '\n' ∉ (w.room r).roomName ∧ (w.room r).roomName.length ≤ 40 :=
    ⟨(hw.archive.shelves r).roomName.2,
      (show (w.room r).roomName.length ≤ 32 from (hw.archive.shelves r).roomName.1.le).trans
        (by decide)⟩
  have hid (s : Text) : '\n' ∉ decimal (atoll s) ∧ (decimal (atoll s)).length ≤ 40 :=
    ⟨newline_not_mem_decimal _, (length_decimal_of_int64 (int64_atoll s)).trans (by decide)⟩
  cases h with
  | ok code h => exact oneLine_two (by decide) ⟨h.2, h.1.trans (by decide)⟩
  | err code h => exact oneLine_two (by decide) ⟨h.2, h.1.trans (by decide)⟩
  | session status token h htoken => exact oneLine_okSession h (henv token htoken)
  | health => exact oneLine_health hwide
  | notice c action h r =>
    refine oneLine_words (by simp) ?_
    simp only [List.forall_mem_cons, List.not_mem_nil, false_imp_iff, implies_true, and_true]
    exact ⟨by decide, hname c, ⟨h.2, h.1.trans (by decide)⟩, htitle r⟩
  | deleted s => exact oneLine_two (by decide) (hid s)
  | receipt s c => exact oneLine_three (by decide) (hid s) (hname c)
  | typing word h c => rcases h with rfl | rfl <;> exact oneLine_two (by decide) (hname c)
  | invite c r => exact oneLine_three (by decide) (hname c) (htitle r)
  | replay r line h => exact oneLine_replay (hw.archive.shelves r) (hwide.slots r) h
  | history n cursor limit found hlimit line h =>
    obtain ⟨r, hfind⟩ := Option.isSome_iff_exists.mp found
    obtain ⟨-, rfl⟩ := findRoom_some (Prod.ext rfl hfind)
    exact oneLine_history (hw.archive.shelves r).roomName hlimit hw.archive.rows hwide.rows h
  | sessions c => exact oneLine_sessions hw.sessions

end Short

section Long

variable {env : Env} {w : World} {command : Cmd} {conn : Conn} {me : ClientPtr} {e : Event}

/-- The arguments of a command hold no newline. -/
def Cmd.Tidy (command : Cmd) : Prop :=
  ∀ t, command.arg1 = some t ∨ command.arg2 = some t → '\n' ∉ t

theorem oneLine_msg {msgId : ℤ} {name text : Text} (hname : '\n' ∉ name) (htext : '\n' ∉ text) :
    OneLine (formatMsgReplyId maxLineLen msgId name text) ↔
      6 + (decimal msgId).length + name.length + text.length + 1 < maxLineLen := by
  have hline : OneLine (lineOf [replyMsg, decimal msgId, name, text]) := by
    refine oneLine_lineOf ?_
    simp only [List.forall_mem_cons, List.not_mem_nil, false_imp_iff, implies_true, and_true]
    exact ⟨by decide, newline_not_mem_decimal _, hname, htext⟩
  rw [formatMsgReplyId, oneLine_snprintf hline, length_lineOf]
  simp only [List.map_cons, List.map_nil, List.sum_cons, List.sum_nil,
    show replyMsg.length = 3 from rfl]
  omega

theorem oneLine_edited {msgId : ℤ} {text : Text} (htext : '\n' ∉ text) :
    OneLine (formatEditedReply maxLineLen msgId text) ↔
      16 + (decimal msgId).length + text.length + 1 < maxLineLen := by
  have hline : OneLine (lineOf [replyEdited, decimal msgId, text]) := by
    refine oneLine_lineOf ?_
    simp only [List.forall_mem_cons, List.not_mem_nil, false_imp_iff, implies_true, and_true]
    exact ⟨by decide, newline_not_mem_decimal _, htext⟩
  rw [formatEditedReply, oneLine_snprintf hline, length_lineOf]
  simp only [List.map_cons, List.map_nil, List.sum_cons, List.sum_nil,
    show replyEdited.length = 14 from rfl]
  omega

theorem oneLine_pm {name text : Text} (hname : '\n' ∉ name) (htext : '\n' ∉ text) :
    OneLine (formatPmReply maxLineLen name text) ↔
      9 + name.length + text.length + 1 < maxLineLen := by
  have hline : OneLine (lineOf [replyPmFrom, name, text]) := by
    refine oneLine_lineOf ?_
    simp only [List.forall_mem_cons, List.not_mem_nil, false_imp_iff, implies_true, and_true]
    exact ⟨by decide, hname, htext⟩
  rw [formatPmReply, oneLine_snprintf hline, length_lineOf]
  simp only [List.map_cons, List.map_nil, List.sum_cons, List.sum_nil,
    show replyPmFrom.length = 7 from rfl]
  omega

theorem newline_not_mem_whoEntry (hw : w.Tidy) (room : RoomPtr) (c : ClientPtr) :
    '\n' ∉ whoEntry w.reg room c := by
  have hname : '\n' ∉ (w.reg.clients c).clientName := (hw.names c).2
  have hstatus : '\n' ∉ statusWord (w.reg.clients c).status := by
    cases (w.reg.clients c).status <;> decide
  unfold whoEntry
  split_ifs <;> simp [hname, hstatus]

theorem editOf_text {room : RoomPtr} {msgId : ℤ} {newText : Text}
    (h : editOf env command me w = some (room, msgId, newText)) : command.arg2 = some newText := by
  unfold editOf at h
  split at h
  · rename_i h₂
    split_ifs at h
    cases h
    exact h₂
  · cases h

theorem privateOf_text {p : ClientPtr × Text} (h : privateOf env command me w = some p) :
    command.arg2 = some p.2 := by
  unfold privateOf at h
  split at h
  · rename_i h₂
    split_ifs at h
    obtain ⟨target, -, rfl⟩ := Option.map_eq_some_iff.mp h
    exact h₂
  · cases h

theorem oneLine_longLine (hw : w.Tidy) (hcmd : command.Tidy) :
    (∀ t, longLine env command me w = some t → OneLine t) ↔
      ∀ n, longLength env command me w = some n → n < maxLineLen := by
  have hname := (hw.names me).2
  unfold longLine longLength
  cases ht : command.type with
  | msg =>
    simp only
    cases hmsg : messageOf env command me w with
    | none => simp
    | some p =>
      obtain ⟨room, msgId⟩ := p
      cases h₁ : command.arg1 with
      | none => simp
      | some text =>
        simpa using oneLine_msg hname (hcmd text (.inl h₁))
  | edit =>
    simp only
    cases hedit : editOf env command me w with
    | none => simp
    | some p =>
      obtain ⟨room, msgId, newText⟩ := p
      have htext : '\n' ∉ newText := hcmd newText (.inr (editOf_text hedit))
      simpa using oneLine_edited htext
  | pm =>
    simp only
    cases hpm : privateOf env command me w with
    | none => simp
    | some p =>
      have htext : '\n' ∉ p.2 := hcmd p.2 (.inr (privateOf_text hpm))
      simpa using oneLine_pm hname htext
  | rooms =>
    have hentries : ∀ entry ∈ w.reg.roomList.map fun r => ' ' :: (w.room r).roomName,
        '\n' ∉ entry := by
      intro entry hentry
      obtain ⟨r, -, rfl⟩ := List.mem_map.mp hentry
      have htitle : '\n' ∉ (w.room r).roomName := (hw.archive.shelves r).roomName.2
      simpa using htitle
    simp only [Option.some.injEq, forall_eq']
    exact oneLine_listReply (by decide) hentries
  | who =>
    simp only
    cases hcur : (w.client me).currentRoom with
    | none => simp
    | some room =>
      have hentries : ∀ entry ∈ whoEntries w.reg room, '\n' ∉ entry := by
        intro entry hentry
        obtain ⟨c, -, rfl⟩ := List.mem_map.mp hentry
        exact newline_not_mem_whoEntry hw room c
      simp only [Option.map_some, Option.some.injEq, forall_eq']
      exact oneLine_listReply (by decide) hentries
  | _ => simp

/-- What a tidy line makes the server hand out are single lines exactly if the long one fits. -/
theorem oneLine_step {fd : Fd} {text : Text} (hw : w.Tidy) (henv : env.Tidy) (hwide : Wide env w)
    (htext : '\n' ∉ text) :
    Prints OneLine (step w (env, .line fd text)) ↔ LineFits env w (.line fd text) := by
  refine (step_line_prints fun t ht => ht.oneLine hw henv hwide).trans ?_
  have hargs : (parseLine text).Tidy := fun t ht => not_mem_arg htext (ht.imp_right Or.inl)
  unfold longLineOf LineFits
  cases hcmd : commandOf w (.line fd text) with
  | none =>
    refine iff_of_true (by simp) fun conn me command h => ?_
    rw [commandOf_eq_some.mpr h] at hcmd
    cases hcmd
  | some p =>
    obtain ⟨conn, me, command⟩ := p
    have hcommands := commandOf_eq_some.mp hcmd
    obtain ⟨text', he, -, -, rfl⟩ := id hcommands
    obtain ⟨-, rfl⟩ := Event.line.inj he
    refine (oneLine_longLine hw hargs).trans ⟨fun h conn' me' command' h' => ?_, fun h => ?_⟩
    · obtain ⟨rfl, rfl, rfl⟩ := hcommands.unique h'
      exact h
    · exact h conn me _ hcommands

end Long

/--
In every state that tidy inputs reach, all strings that a command line makes the
server hand to `conn_send`, `send` and `room_broadcast` are single lines exactly
if the one that holds the text of a MSG, EDIT or PM, or the list of a ROOMS or
WHO, fits in its buffer.
-/
theorem one_line_iff (cfg : Config) {db : Database} (hdb : db.Tidy) (start : ℤ)
    {inputs : List (Env × Event)} (hin : ∀ input ∈ inputs, input.1.Tidy ∧ input.2.Tidy)
    {env : Env} {fd : Fd} {text : Text} (henv : env.Tidy) (htext : '\n' ∉ text)
    (hwide : Wide env (run step (World.init cfg db start) inputs)) :
    let w := run step (World.init cfg db start) inputs
    Prints OneLine (step w (env, .line fd text)) ↔ LineFits env w (.line fd text) :=
  oneLine_step (run_tidy cfg hdb start hin) henv hwide htext

/-- A token as the server generates it. -/
def hexToken : Text := List.replicate 64 'a'

/-- Bob shares a room with Alice. -/
def sharedRoom : List (Env × Event) :=
  [(.calm 0 0 hexToken, .accept 4 false),
   (.calm 0 0 hexToken, .line 4 "REGISTER alice pw".toList),
   (.calm 0 0 hexToken, .line 4 "CREATE lounge".toList),
   (.calm 0 0 hexToken, .accept 5 false),
   (.calm 0 1 ("b".toList ++ hexToken.tail), .line 5 "REGISTER bob pw".toList),
   (.calm 0 0 hexToken, .line 5 "JOIN lounge".toList)]

theorem sharedRoom_one_line :
    Prints OneLine (step (run step (World.init ⟨16, 64, 16, 10⟩ .empty 0) sharedRoom)
      (.calm 0 0 hexToken, .line 4 "MSG hello bob".toList)) := by
  have hcalm (r : RoomPtr) (c : ClientPtr) {token : Text}
      (h : token.length = 64 ∧ '\n' ∉ token) : (Env.calm r c token).Tidy := by
    intro t ht
    obtain rfl := List.mem_singleton.mp ht
    exact h
  refine (one_line_iff ⟨16, 64, 16, 10⟩ ⟨by simp [Database.empty, Messages.empty],
    by simp [Database.empty, Table.empty]⟩ 0 ?_ (hcalm 0 0 (by decide)) (by decide) ?_).mpr ?_
  · simp only [sharedRoom, List.forall_mem_cons, List.not_mem_nil, false_imp_iff, implies_true,
      and_true]
    exact ⟨⟨hcalm 0 0 (by decide), trivial⟩,
      ⟨hcalm 0 0 (by decide), (by decide : '\n' ∉ "REGISTER alice pw".toList)⟩,
      ⟨hcalm 0 0 (by decide), (by decide : '\n' ∉ "CREATE lounge".toList)⟩,
      ⟨hcalm 0 0 (by decide), trivial⟩,
      ⟨hcalm 0 1 (by decide), (by decide : '\n' ∉ "REGISTER bob pw".toList)⟩,
      hcalm 0 0 (by decide), (by decide : '\n' ∉ "JOIN lounge".toList)⟩
  · exact {
      now := ⟨by decide, by decide⟩
      uptimeStart := ⟨by decide, by decide⟩
      rows := fun row hrow => by cases hrow
      slots := by
        intro r i
        cases r with
        | zero => exact (⟨by decide, by decide⟩ : Int64 0)
        | succ r => exact (⟨by decide, by decide⟩ : Int64 0) }
  · intro conn me command h n hn
    have hcmd : commandOf (run step (World.init ⟨16, 64, 16, 10⟩ .empty 0) sharedRoom)
        (.line 4 "MSG hello bob".toList) =
          some (⟨4, some 0, false⟩, 0, parseLine "MSG hello bob".toList) := by decide +kernel
    rw [commandOf_eq_some.mpr h] at hcmd
    obtain ⟨-, rfl, rfl⟩ := Prod.ext_iff.mp (Option.some.inj hcmd) |>.imp_right Prod.ext_iff.mp
    have hlen : longLength (.calm 0 0 hexToken) (parseLine "MSG hello bob".toList) 0
        (run step (World.init ⟨16, 64, 16, 10⟩ .empty 0) sharedRoom) = some 22 := by decide +kernel
    rw [hlen] at hn
    obtain rfl := Option.some.inj hn
    decide

/-- A text of five hundred bytes leaves no room for the newline in the line Bob receives. -/
theorem longText_not_one_line :
    ¬Prints OneLine (step (run step (World.init ⟨16, 64, 16, 10⟩ .empty 0) sharedRoom)
      (.calm 0 0 [], .line 4 ("MSG ".toList ++ List.replicate 500 'a'))) := by
  decide +kernel

end ChatServer
