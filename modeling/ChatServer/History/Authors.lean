import ChatServer.History.Backed
import ChatServer.Replies.OneLine

/-! # Authors of messages

The text of a stored message changes only by an EDIT of its author, or by a
DELETE of its author or of the administrator of its room. A buffer holds the
sender of a row cut to the length of a user name, and goes by that.
-/

namespace ChatServer

open Library World

variable {env : Env} {w : World} {e : Event} {conn : Conn} {me : ClientPtr} {command : Cmd}
  {r : RoomPtr} {db : Database} {n text sender : Text} {msgId : ℤ} {m : Message}

/-! ## Stored messages -/

/-- The message of a row, before its texts are cut. -/
def MessageRow.stored (row : MessageRow) : Message :=
  { row.load with sender := row.sender, text := row.text }

/-- A message stored under a room name, in the table or in the buffer of a live room. -/
inductive World.Holds (w : World) : Option RoomPtr → Text → Message → Prop
  | row {row : MessageRow} (h : row ∈ w.db.messages.rows) : w.Holds none row.room row.stored
  | slot {r : RoomPtr} {m : Message} (live : r ∈ w.reg.roomList)
      (h : m ∈ (historyScan (w.room r).history).reduceOption) (hm : m ≠ zeroMessage) :
      w.Holds (some r) (w.room r).roomName m

/-- The commands that may change the text of a message stored under a room name. -/
inductive Changes (w : World) (e : Event) (n : Text) (m : Message) (text : Text) : Prop
  | edit {conn : Conn} {me : ClientPtr} {command : Cmd} {idStr : Text}
      (h : Commands w e conn me command) (ht : command.type = .edit)
      (h₁ : command.arg1 = some idStr) (hid : atoll idStr = m.id)
      (author : (w.client me).clientName = m.sender)
  | delete {conn : Conn} {me : ClientPtr} {command : Cmd} {idStr : Text}
      (h : Commands w e conn me command) (ht : command.type = .delete)
      (h₁ : command.arg1 = some idStr) (hid : atoll idStr = m.id)
      (allowed : (w.client me).clientName = m.sender ∨
        ∃ r ∈ w.reg.roomList, (w.room r).roomName = n ∧ (w.room r).adminClient = some me)
      (htext : text = "[deleted]".toList)

/-- An event changes messages only as their authors and the administrator of the room may. -/
structure ChangedByAuthors (w w' : World) (e : Event) : Prop where
  kept : ∀ n m, w.Holds none n m → ∃ m', w'.Holds none n m' ∧ m'.id = m.id ∧ m'.sender = m.sender
  text : ∀ place n n' m m', w.Holds place n m → w'.Holds place n' m' → m'.id = m.id →
    m'.text ≠ m.text → Changes w e n m m'.text
  others : ∀ conn me command idStr, Commands w e conn me command →
    command.type = .edit ∨ command.type = .delete → command.arg1 = some idStr →
    ∀ place n m, m.id ≠ atoll idStr → (w'.Holds place n m ↔ w.Holds place n m)

/-- The room that the client of a connection sits in. -/
def World.roomOf (w : World) (fd : Fd) : Option RoomPtr :=
  (w.conns.get fd).bind fun conn => conn.me.bind fun me => (w.client me).currentRoom

/-- The event is handled for a client that sits in a freed room. -/
def UsesFreed (w : World) : Event → Prop
  | .line fd _ | .disconnect fd => ∃ r ∈ w.roomOf fd, r ∉ w.reg.roomList
  | _ => False

instance (w : World) (e : Event) : Decidable (UsesFreed w e) := by
  cases e <;> simp only [UsesFreed] <;> infer_instance

/-- The room of a client holds, undeleted, the message of a row whose sender is cut to its name. -/
structure TakenFor (w : World) (me : ClientPtr) (command : Cmd) (row : MessageRow) : Prop where
  hrow : row ∈ w.db.messages.rows
  pos : 0 < row.id
  named : command.arg1.map atoll = some row.id
  live : row.deleted = false
  held : ∃ room m, (w.client me).currentRoom = some room ∧
    m ∈ (historyScan (w.room room).history).reduceOption ∧ m.id = row.id ∧ m.deleted = false ∧
    m.sender = (w.client me).clientName
  other : (w.client me).clientName ≠ row.sender

/-- A client that is taken for the sender of a row changes its text. -/
inductive PassesForSender (env : Env) (w : World) (e : Event) : Prop
  | edit {conn : Conn} {me : ClientPtr} {command : Cmd} {row : MessageRow} {newText : Text}
      (h : Commands w e conn me command) (ht : command.type = .edit)
      (taken : TakenFor w me command row) (h₂ : command.arg2 = some newText) (htext : newText ≠ [])
      (sql : env.sql .editMessage = .done) (differs : row.text ≠ newText)
  | delete {conn : Conn} {me : ClientPtr} {command : Cmd} {row : MessageRow}
      (h : Commands w e conn me command) (ht : command.type = .delete)
      (taken : TakenFor w me command row) (sql : env.sql .deleteMessage = .done)
      (differs : row.text ≠ "[deleted]".toList)
      (elsewhere : ∀ r ∈ w.reg.roomList, (w.room r).roomName = row.room →
        (w.room r).adminClient ≠ some me)

theorem holds_none :
    w.Holds none n m ↔ ∃ row ∈ w.db.messages.rows, row.room = n ∧ row.stored = m := by
  constructor
  · rintro ⟨hrow⟩
    exact ⟨_, hrow, rfl, rfl⟩
  · rintro ⟨row, hrow, rfl, rfl⟩
    exact .row hrow

theorem holds_some : w.Holds (some r) n m ↔ r ∈ w.reg.roomList ∧ (w.room r).roomName = n ∧
    m ∈ (historyScan (w.room r).history).reduceOption ∧ m ≠ zeroMessage := by
  constructor
  · rintro ⟨⟩
    exact ⟨‹_›, rfl, ‹_›, ‹_›⟩
  · rintro ⟨live, rfl, h, hm⟩
    exact .slot live h hm

theorem holds_congr {w' : World} (harchive : w'.archive = w.archive)
    (hlist : w'.reg.roomList = w.reg.roomList) {place : Option RoomPtr} :
    w'.Holds place n m ↔ w.Holds place n m := by
  have hrows : w'.db.messages = w.db.messages := congrArg Archive.messages harchive
  cases place with
  | none => rw [holds_none, holds_none, hrows]
  | some r =>
    obtain ⟨hname, hhist⟩ := shelf_eq (congrArg Archive.shelves harchive) r
    simp only [holds_some, hlist, World.room, hname, hhist]

/-- Every stored message has its row, whose sender a buffer holds cut. -/
theorem row_of_holds (hw : w.archive.Backed) {place : Option RoomPtr} (hm : w.Holds place n m) :
    ∃ row ∈ w.db.messages.rows, row.id = m.id ∧ row.room = n ∧
      m.sender = if place.isSome then row.load.sender else row.sender := by
  cases hm with
  | row h => exact ⟨_, h, rfl, rfl, rfl⟩
  | @slot r m live h hm =>
    obtain ⟨i, rfl⟩ := exists_slot_of_mem_scan h
    obtain ⟨row, hrow, hid, hroom, hsender⟩ := (hw r).row i hm
    exact ⟨row, hrow, hid, hroom, hsender.symm⟩

/-- A command of a client in a room, in a run that uses no freed room, finds the room live. -/
theorem live_of_defined (hcmd : Commands w e conn me command) (hdef : ¬UsesFreed w e)
    (inside : (w.client me).currentRoom = some r) : r ∈ w.reg.roomList := by
  by_contra hfreed
  obtain ⟨text, rfl, hconn, hme, -⟩ := hcmd
  refine hdef ⟨r, ?_, hfreed⟩
  simp only [World.roomOf, hconn, hme, Option.bind_some, inside, Option.mem_def]

theorem changeMessage_ok_iff {t : Messages} {h : RingBuffer Message}
    (hs : Shelf.Backed t ⟨n, h⟩) (hpos : 0 < msgId) {mayChange : Message → Bool}
    {change : Message → Message} : (changeMessage h msgId mayChange change).1 = .ok ↔
      ∃ m ∈ (historyScan h).reduceOption, m.id = msgId ∧ m.deleted = false ∧ mayChange m := by
  have hread (idx : ℤ) (m : Message) (hr : historyRead h idx = some m) : m = h.slots idx.toNat := by
    unfold historyRead at hr
    split_ifs at hr
    exact (Option.some.inj hr).symm
  unfold changeMessage
  cases hfind : historyFind h msgId with
  | none =>
    refine iff_of_false (by simp) ?_
    rintro ⟨m, hm, hid, -⟩
    obtain ⟨i, hi, hslot⟩ := List.mem_map.mp (List.reduceOption_mem_iff.mp hm)
    have hnone := List.find?_eq_none.mp hfind _ (List.mem_map_of_mem hi)
    simp [hslot, hid] at hnone
  | some idx =>
    have hmem := List.mem_of_find?_eq_some hfind
    have hidx : (historyRead h idx).map Message.id = some msgId := by
      simpa using List.find?_some hfind
    obtain ⟨m₀, hm₀, hid₀⟩ := Option.map_eq_some_iff.mp hidx
    obtain rfl := hread idx m₀ hm₀
    have hscan : h.slots idx.toNat ∈ (historyScan h).reduceOption := by
      obtain ⟨i, hi, rfl⟩ := List.mem_map.mp hmem
      exact List.reduceOption_mem_iff.mpr (List.mem_map.mpr ⟨i, hi, hm₀⟩)
    have hpos₀ : h.slots idx.toNat ≠ zeroMessage := ne_zeroMessage_of_pos (hid₀ ▸ hpos)
    have honly (m : Message) (hm : m ∈ (historyScan h).reduceOption) (hid : m.id = msgId) :
        m = h.slots idx.toNat := by
      obtain ⟨k, rfl⟩ := exists_slot_of_mem_scan hm
      have hk : h.slots k ≠ zeroMessage := ne_zeroMessage_of_pos (hid ▸ hpos)
      rw [hs.slot k idx.toNat hk hpos₀ (hid.trans hid₀.symm)]
    simp only
    split_ifs with hdel hmay
    · refine iff_of_false (by simp) ?_
      rintro ⟨m, hm, hid, hlive, -⟩
      rw [honly m hm hid, hdel] at hlive
      cases hlive
    · refine iff_of_false (by simp) ?_
      rintro ⟨m, hm, hid, -, hp⟩
      rw [honly m hm hid] at hp
      simp [hp] at hmay
    · exact iff_of_true rfl ⟨_, hscan, hid₀, by simpa using hdel, by simpa using hmay⟩

/-! ## One step -/

section Step

variable {a : Archive}

theorem Archives.slot_cases (hsql : env.sql .saveMessage = .done)
    (hcmd : Commands w e conn me command) (ha : Archives env w me command a)
    (live : r ∈ w.reg.roomList) (i : ℕ) :
    (a.shelves r).history.slots i = (w.room r).history.slots i ∨
      w.db.messages.seq < ((a.shelves r).history.slots i).id ∨
      0 < ((w.room r).history.slots i).id ∧
        ((a.shelves r).history.slots i).id = ((w.room r).history.slots i).id ∧
        Changes w e (w.room r).roomName ((w.room r).history.slots i)
          ((a.shelves r).history.slots i).text := by
  cases ha with
  | @create n r₀ reg ht h₁ made =>
    obtain ⟨hfree, -, hshelves⟩ := shelvesOf_of_created made
    have hne : r ≠ r₀ := fun he => hfree (he ▸ live)
    simp only [archiveOf, hshelves, Function.update_of_ne hne]
    exact .inl rfl
  | @msg text room msgId db reg ht h₁ inside htext free added =>
    obtain ⟨rfl, hshelves⟩ := shelvesOf_of_added added
    have hid := id_of_added hsql added
    simp only [archiveOf, hshelves, Function.update_apply]
    split_ifs with hr hcap
    · exact .inl (by rw [hr]; rfl)
    · subst hr
      simp only [addMessage, RingBuffer.write, Function.update_apply]
      split_ifs with hslot
      · exact .inr (.inl (hid ▸ (dbSaveMessage_done _ _ _ _ hsql).1))
      · exact .inl rfl
    · exact .inl rfl
  | @edit idStr newText room db reg ht h₁ h₂ inside htext hpos edited =>
    obtain ⟨rfl, h', hchange, hshelves⟩ := shelvesOf_of_edited edited
    obtain ⟨k, hid, -, hmay, rfl⟩ := changeMessage_set hchange
    simp only [archiveOf, hshelves, Function.update_apply]
    split_ifs with hr
    · subst hr
      simp only [RingBuffer.set, Function.update_apply]
      split_ifs with hslot
      · subst hslot
        exact .inr (.inr ⟨hid ▸ hpos, rfl,
          .edit hcmd ht h₁ hid.symm (of_decide_eq_true hmay).symm⟩)
      · exact .inl rfl
    · exact .inl rfl
  | @delete idStr room db reg ht h₁ inside hpos deleted =>
    obtain ⟨rfl, h', hchange, hshelves⟩ := shelvesOf_of_deleted deleted
    obtain ⟨k, hid, -, hmay, rfl⟩ := changeMessage_set hchange
    simp only [archiveOf, hshelves, Function.update_apply]
    split_ifs with hr
    · subst hr
      simp only [RingBuffer.set, Function.update_apply]
      split_ifs with hslot
      · subst hslot
        refine .inr (.inr ⟨hid ▸ hpos, rfl, .delete hcmd ht h₁ hid.symm ?_ rfl⟩)
        simp only [decide_eq_true_eq] at hmay
        exact hmay.imp Eq.symm fun hadmin => ⟨r, live, rfl, hadmin⟩
      · exact .inl rfl
    · exact .inl rfl

theorem roomEditMessage_fst {requester newText : Text} {reg : Registry} :
    (roomEditMessage env r msgId requester newText db reg).1 =
      (changeMessage (reg.rooms r).history msgId (fun m => m.sender = requester)
        fun m => { m with text := strncpy maxTextLen newText, editedAt := env.now }).1 := by
  unfold roomEditMessage
  split <;> simp_all

theorem roomDeleteMessage_fst {requester : Text} {isAdmin : Bool} {reg : Registry} :
    (roomDeleteMessage env r msgId requester isAdmin db reg).1 =
      (changeMessage (reg.rooms r).history msgId (fun m => m.sender = requester ∨ isAdmin)
        fun m => { m with deleted := true, text := strncpy maxTextLen "[deleted]".toList }).1 := by
  unfold roomDeleteMessage
  split <;> simp_all

theorem edited_row (hcmd : Commands w e conn me command)
    (ht : command.type = .edit) {idStr newText : Text} {room : RoomPtr}
    (h₁ : command.arg1 = some idStr) (h₂ : command.arg2 = some newText)
    (inside : (w.client me).currentRoom = some room) (htext : newText ≠ []) (hpos : 0 < atoll idStr)
    (found : ∃ m ∈ (historyScan (w.room room).history).reduceOption, m.id = atoll idStr ∧
      m.deleted = false ∧ m.sender = (w.client me).clientName)
    (sql : env.sql .editMessage = .done) {row : MessageRow} (hrow : row ∈ w.db.messages.rows)
    (hid : row.id = atoll idStr) (hlive : row.deleted = false) (hdiff : row.text ≠ newText) :
    Changes w e row.room row.stored newText ∨ PassesForSender env w e := by
  by_cases hname : (w.client me).clientName = row.sender
  · exact .inl (.edit hcmd ht h₁ hid.symm hname)
  · obtain ⟨m, hm, hmid, hdel, hsender⟩ := found
    refine .inr (.edit hcmd ht ⟨hrow, hid ▸ hpos, ?_, hlive, ?_, hname⟩ h₂ htext sql hdiff)
    · rw [h₁, Option.map_some, hid]
    · exact ⟨room, m, inside, hm, hmid.trans hid.symm, hdel, hsender⟩

theorem deleted_row (hw : w.archive.Backed) (hcmd : Commands w e conn me command)
    (ht : command.type = .delete) {idStr : Text} {room : RoomPtr} (h₁ : command.arg1 = some idStr)
    (inside : (w.client me).currentRoom = some room) (hlist : room ∈ w.reg.roomList)
    (hpos : 0 < atoll idStr)
    (found : ∃ m ∈ (historyScan (w.room room).history).reduceOption, m.id = atoll idStr ∧
      m.deleted = false ∧
      (m.sender = (w.client me).clientName ∨ (w.room room).adminClient = some me))
    (sql : env.sql .deleteMessage = .done) {row : MessageRow} (hrow : row ∈ w.db.messages.rows)
    (hid : row.id = atoll idStr) (hlive : row.deleted = false)
    (hdiff : row.text ≠ "[deleted]".toList) :
    Changes w e row.room row.stored "[deleted]".toList ∨ PassesForSender env w e := by
  by_cases hallowed : (w.client me).clientName = row.sender ∨
      ∃ r ∈ w.reg.roomList, (w.room r).roomName = row.room ∧ (w.room r).adminClient = some me
  · exact .inl (.delete hcmd ht h₁ hid.symm hallowed rfl)
  · obtain ⟨hname, helse⟩ := not_or.mp hallowed
    obtain ⟨m, hm, hmid, hdel, hmay⟩ := found
    obtain ⟨i, rfl⟩ := exists_slot_of_mem_scan hm
    obtain ⟨row₀, hrow₀, hid₀, hroom, -⟩ := (hw room).row i
      (ne_zeroMessage_of_pos (hmid ▸ hpos))
    obtain rfl := Messages.row_unique hrow₀ hrow (hid₀.trans (hmid.trans hid.symm))
    have hsender := hmay.resolve_right fun hadmin => helse ⟨room, hlist, hroom.symm, hadmin⟩
    refine .inr (.delete hcmd ht ⟨hrow, hid ▸ hpos, ?_, hlive, ?_, hname⟩ sql hdiff ?_)
    · rw [h₁, Option.map_some, hid]
    · exact ⟨room, _, inside, hm, hmid.trans hid.symm, hdel, hsender⟩
    · exact fun r hr hn ha => helse ⟨r, hr, hn, ha⟩

/-- What a command does to a row of the table. -/
theorem Archives.row_cases (hw : w.archive.Backed) (hsql : env.sql .saveMessage = .done)
    (hcmd : Commands w e conn me command) (hdef : ¬UsesFreed w e)
    (ha : Archives env w me command a) {row' : MessageRow} (h : row' ∈ a.messages.rows) :
    row' ∈ w.db.messages.rows ∨ w.db.messages.seq < row'.id ∨
      ∃ row ∈ w.db.messages.rows, row.id = row'.id ∧ (row'.text = row.text ∨
        Changes w e row.room row.stored row'.text ∨ PassesForSender env w e) := by
  cases ha with
  | create ht h₁ made => exact .inl h
  | msg ht h₁ inside htext free added =>
    obtain ⟨rfl, -⟩ := shelvesOf_of_added added
    obtain ⟨hseq, hrows⟩ := dbSaveMessage_done _ _ _ _ hsql
    rw [archiveOf, hrows] at h
    rcases List.mem_append.mp h with h | h
    · exact .inl h
    · obtain rfl := List.mem_singleton.mp h
      exact .inr (.inl hseq)
  | @edit idStr newText room db reg ht h₁ h₂ inside htext hpos edited =>
    have hok : (changeMessage (w.room room).history (atoll idStr)
        (fun m => m.sender = (w.client me).clientName) _).1 = .ok :=
      roomEditMessage_fst.symm.trans (congrArg Prod.fst edited)
    have found := (changeMessage_ok_iff (hw room) hpos).mp hok
    simp only [decide_eq_true_eq] at found
    obtain ⟨rfl, -⟩ := shelvesOf_of_edited edited
    rcases mem_dbEditMessage h with h | ⟨row, hrow, hid, hlive, sql, rfl⟩
    · exact .inl h
    · refine .inr (.inr ⟨row, hrow, rfl, or_iff_not_imp_left.mpr fun hdiff => ?_⟩)
      exact edited_row hcmd ht h₁ h₂ inside htext hpos found sql hrow hid hlive (Ne.symm hdiff)
  | @delete idStr room db reg ht h₁ inside hpos deleted =>
    have hlist := live_of_defined hcmd hdef inside
    have hok : (changeMessage (w.room room).history (atoll idStr)
        (fun m => m.sender = (w.client me).clientName ∨
          decide ((w.room room).adminClient = some me)) _).1 = .ok :=
      roomDeleteMessage_fst.symm.trans (congrArg Prod.fst deleted)
    have found := (changeMessage_ok_iff (hw room) hpos).mp hok
    simp only [decide_eq_true_eq] at found
    obtain ⟨rfl, -⟩ := shelvesOf_of_deleted deleted
    rcases mem_dbDeleteMessage h with h | ⟨row, hrow, hid, hlive, sql, rfl⟩
    · exact .inl h
    · refine .inr (.inr ⟨row, hrow, rfl, or_iff_not_imp_left.mpr fun hdiff => ?_⟩)
      exact deleted_row hw hcmd ht h₁ inside hlist hpos found sql hrow hid hlive (Ne.symm hdiff)

theorem Archives.keeps (ha : Archives env w me command a) : w.db.messages.Keeps a.messages := by
  cases ha with
  | create ht h₁ made => exact .refl _
  | msg ht h₁ inside htext free added =>
    obtain ⟨rfl, -⟩ := shelvesOf_of_added added
    exact dbSaveMessage_keeps _ _ _ _ _
  | edit ht h₁ h₂ inside htext hpos edited =>
    obtain ⟨rfl, -⟩ := shelvesOf_of_edited edited
    exact dbEditMessage_keeps
  | delete ht h₁ inside hpos deleted =>
    obtain ⟨rfl, -⟩ := shelvesOf_of_deleted deleted
    exact dbDeleteMessage_keeps

theorem step_keeps (w : World) (env : Env) (e : Event) :
    w.db.messages.Keeps (step w (env, e)).db.messages := by
  rcases step_archive w env e with hkept | ⟨conn, me, command, -, ha⟩
  · have hrows : (step w (env, e)).db.messages = w.db.messages := congrArg Archive.messages hkept
    exact hrows ▸ .refl _
  · exact ha.keeps

theorem step_backed (hw : w.archive.Backed) (hsql : env.sql .saveMessage = .done) (e : Event) :
    (step w (env, e)).archive.Backed := by
  rcases step_archive w env e with hkept | ⟨conn, me, command, -, ha⟩
  · exact hkept ▸ hw
  · exact ha.backed hw hsql

theorem mem_historyScan_set {k : ℕ} {x : Message} (hid : x.id = (h.slots k).id)
    (hne : m.id ≠ x.id) : m ∈ (historyScan (h.set k x)).reduceOption ↔
      m ∈ (historyScan h).reduceOption := by
  have hread (i : ℕ) : historyRead (h.set k x) (historyIndex h i) = some m ↔
      historyRead h (historyIndex h i) = some m := by
    unfold historyRead
    split_ifs
    · simp only [RingBuffer.set, Option.some.injEq, Function.update_apply]
      split_ifs with hk
      · refine iff_of_false ?_ ?_
        · rintro rfl
          exact hne rfl
        · intro hm
          rw [hk] at hm
          exact hne (hm ▸ hid.symm)
      · exact Iff.rfl
    · exact Iff.rfl
  simp only [List.reduceOption_mem_iff, historyScan, List.mem_map]
  exact exists_congr fun i => and_congr_right fun _ => hread i

theorem Archives.holds_other {w' : World} {idStr : Text} {place : Option RoomPtr}
    (ha : Archives env w me command w'.archive) (hlist : w'.reg.roomList = w.reg.roomList)
    (ht : command.type = .edit ∨ command.type = .delete) (h₁ : command.arg1 = some idStr)
    (hne : m.id ≠ atoll idStr) : w'.Holds place n m ↔ w.Holds place n m := by
  -- both commands change the rows of the id, and one slot that holds it
  have hother {room : RoomPtr} {k : ℕ} {x : Message} (hx : x.id = atoll idStr)
      (hk : ((w.room room).history.slots k).id = atoll idStr)
      (hrows : ∀ row, row.id ≠ atoll idStr → (row ∈ w'.db.messages.rows ↔
        row ∈ w.db.messages.rows))
      (hshelves : shelvesOf w'.reg = Function.update (shelvesOf w.reg) room
        ⟨(w.room room).roomName, (w.room room).history.set k x⟩) :
      w'.Holds place n m ↔ w.Holds place n m := by
    cases place with
    | none =>
      simp only [holds_none]
      constructor
      · rintro ⟨row, hrow, hroom, rfl⟩
        exact ⟨row, (hrows row hne).mp hrow, hroom, rfl⟩
      · rintro ⟨row, hrow, hroom, rfl⟩
        exact ⟨row, (hrows row hne).mpr hrow, hroom, rfl⟩
    | some r =>
      simp only [holds_some, hlist]
      have hshelf := congrFun hshelves r
      simp only [Function.update_apply] at hshelf
      split_ifs at hshelf with hr
      · subst hr
        obtain ⟨hname, hhist⟩ := Shelf.mk.inj hshelf
        change (w'.room r).roomName = _ at hname
        change (w'.room r).history = _ at hhist
        rw [hname, hhist, mem_historyScan_set (hx.trans hk.symm) (hx ▸ hne)]
      · obtain ⟨hname, hhist⟩ := Shelf.mk.inj hshelf
        change (w'.room r).roomName = _ at hname
        change (w'.room r).history = _ at hhist
        rw [hname, hhist]
        rfl
  generalize hw' : w'.archive = a at ha
  cases ha with
  | create ht' => rcases ht with ht | ht <;> simp [ht] at ht'
  | msg ht' => rcases ht with ht | ht <;> simp [ht] at ht'
  | @edit idStr' newText room db reg ht' h₁' h₂ inside htext hpos edited =>
    obtain rfl : idStr' = idStr := Option.some.inj (h₁'.symm.trans h₁)
    obtain ⟨rfl, h', hchange, hshelves⟩ := shelvesOf_of_edited edited
    obtain ⟨k, hk, -, -, rfl⟩ := changeMessage_set hchange
    obtain ⟨hmessages, hreg⟩ := Archive.mk.inj hw'
    refine hother ?_ hk (fun row hne => ?_) (hreg.trans hshelves)
    · exact hk
    · exact hmessages ▸ mem_dbEditMessage_iff hne
  | @delete idStr' room db reg ht' h₁' inside hpos deleted =>
    obtain rfl : idStr' = idStr := Option.some.inj (h₁'.symm.trans h₁)
    obtain ⟨rfl, h', hchange, hshelves⟩ := shelvesOf_of_deleted deleted
    obtain ⟨k, hk, -, -, rfl⟩ := changeMessage_set hchange
    obtain ⟨hmessages, hreg⟩ := Archive.mk.inj hw'
    refine hother ?_ hk (fun row hne => ?_) (hreg.trans hshelves)
    · exact hk
    · exact hmessages ▸ mem_dbDeleteMessage_iff hne

theorem step_roomList_of_change (hcmd : Commands w e conn me command)
    (ht : command.type = .edit ∨ command.type = .delete) :
    (step w (env, e)).reg.roomList = w.reg.roomList := by
  have hroster : (step w (env, e)).roster = w.roster := by
    rcases ht with ht | ht
    · rw [step_eq_dispatch env hcmd (by simp [ht]), dispatch, ht]
      exact handleEdit_roster
    · rw [step_eq_dispatch env hcmd (by simp [ht]), dispatch, ht]
      exact handleDelete_roster
  exact congrArg Roster.rooms hroster

theorem step_others (hcmd : Commands w e conn me command)
    (ht : command.type = .edit ∨ command.type = .delete) {idStr : Text}
    (h₁ : command.arg1 = some idStr) {place : Option RoomPtr} (hne : m.id ≠ atoll idStr) :
    (step w (env, e)).Holds place n m ↔ w.Holds place n m := by
  have hlist : (step w (env, e)).reg.roomList = w.reg.roomList := step_roomList_of_change hcmd ht
  rcases step_archive w env e with hkept | ⟨conn', me', command', hcmd', ha⟩
  · exact holds_congr hkept hlist
  · obtain ⟨rfl, rfl, rfl⟩ := hcmd.unique hcmd'
    exact ha.holds_other hlist ht h₁ hne

theorem step_row_text (hw : w.archive.Backed) (hsql : env.sql .saveMessage = .done)
    (hdef : ¬UsesFreed w e) {row row' : MessageRow} (hrow : row ∈ w.db.messages.rows)
    (hrow' : row' ∈ (step w (env, e)).db.messages.rows) (hid : row'.id = row.id)
    (htext : row'.text ≠ row.text) :
    Changes w e row.room row.stored row'.text ∨ PassesForSender env w e := by
  rcases step_archive w env e with hkept | ⟨conn, me, command, hcmd, ha⟩
  · have hrows : (step w (env, e)).db.messages = w.db.messages := congrArg Archive.messages hkept
    rw [hrows] at hrow'
    exact absurd (congrArg MessageRow.text (Messages.row_unique hrow' hrow hid)) htext
  · rcases ha.row_cases hw hsql hcmd hdef hrow' with hold | hnew | ⟨row₀, hrow₀, hid₀, hchange⟩
    · exact absurd (congrArg MessageRow.text (Messages.row_unique hold hrow hid)) htext
    · exact absurd (w.db.messages.ids row hrow) (not_le.mpr (hid ▸ hnew))
    · obtain rfl := Messages.row_unique hrow₀ hrow (hid₀.trans hid)
      exact hchange.resolve_left htext

theorem step_slot_text (hw : w.archive.Backed) (hsql : env.sql .saveMessage = .done)
    (live : r ∈ w.reg.roomList) {i j : ℕ} (hi : (w.room r).history.slots i ≠ zeroMessage)
    (hj : ((step w (env, e)).room r).history.slots j ≠ zeroMessage)
    (hid : (((step w (env, e)).room r).history.slots j).id = ((w.room r).history.slots i).id)
    (htext : (((step w (env, e)).room r).history.slots j).text ≠
      ((w.room r).history.slots i).text) :
    Changes w e (w.room r).roomName ((w.room r).history.slots i)
      (((step w (env, e)).room r).history.slots j).text := by
  have hold (h : ((step w (env, e)).room r).history.slots j = (w.room r).history.slots j) :
      False := by
    rw [h] at hid hj htext
    obtain rfl : j = i := (hw r).slot j i hj hi hid
    exact htext rfl
  rcases step_archive w env e with hkept | ⟨conn, me, command, hcmd, ha⟩
  · obtain ⟨-, hhist⟩ := shelf_eq (congrArg Archive.shelves hkept) r
    exact (hold (congrArg (fun h => h.slots j) hhist)).elim
  · rcases ha.slot_cases hsql hcmd live j with h | hnew | ⟨hpos, hkeep, hchange⟩
    · exact (hold h).elim
    · have hle : ((w.room r).history.slots i).id ≤ w.db.messages.seq := (hw r).id_le i
      exact absurd hle (not_le.mpr (hid ▸ hnew))
    · obtain rfl : j = i :=
        (hw r).slot j i (ne_zeroMessage_of_pos hpos) hi (hkeep.symm.trans hid)
      exact hchange

theorem step_edit_db {idStr newText : Text} {room : RoomPtr} (hcmd : Commands w e conn me command)
    (ht : command.type = .edit) (h₁ : command.arg1 = some idStr) (h₂ : command.arg2 = some newText)
    (htext : newText ≠ []) (hpos : 0 < atoll idStr)
    (inside : (w.client me).currentRoom = some room)
    (found : (roomEditMessage env room (atoll idStr) (w.client me).clientName newText
      w.db w.reg).1 = .ok) :
    (step w (env, e)).db = dbEditMessage env (atoll idStr) newText w.db := by
  rcases hedit : roomEditMessage env room (atoll idStr) (w.client me).clientName newText
    w.db w.reg with ⟨res, db, reg⟩
  obtain rfl : res = .ok := by rw [hedit] at found; exact found
  obtain ⟨rfl, -⟩ := shelvesOf_of_edited hedit
  have hcur : (World.client { w with out := [], broadcasts := [] } me).currentRoom = some room :=
      inside
  have hres : roomEditMessage env room (atoll idStr)
      (World.client { w with out := [], broadcasts := [] } me).clientName newText w.db w.reg = _ :=
        hedit
  rw [step_eq_dispatch env hcmd (by simp [ht]), dispatch, ht]
  simp only [handleEdit, hcur, h₁, h₂, if_neg htext, if_neg (not_le.mpr hpos), hres]
  rfl

theorem step_delete_db {idStr : Text} {room : RoomPtr} (hcmd : Commands w e conn me command)
    (ht : command.type = .delete) (h₁ : command.arg1 = some idStr) (hpos : 0 < atoll idStr)
    (inside : (w.client me).currentRoom = some room)
    (found : (roomDeleteMessage env room (atoll idStr) (w.client me).clientName
      (decide ((w.room room).adminClient = some me)) w.db w.reg).1 = .ok) :
    (step w (env, e)).db = dbDeleteMessage env (atoll idStr) w.db := by
  rcases hdelete : roomDeleteMessage env room (atoll idStr) (w.client me).clientName
    (decide ((w.room room).adminClient = some me)) w.db w.reg with ⟨res, db, reg⟩
  obtain rfl : res = .ok := by rw [hdelete] at found; exact found
  obtain ⟨rfl, -⟩ := shelvesOf_of_deleted hdelete
  have hcur : (World.client { w with out := [], broadcasts := [] } me).currentRoom = some room :=
      inside
  have hres : roomDeleteMessage env room (atoll idStr)
      (World.client { w with out := [], broadcasts := [] } me).clientName
      (decide ((World.room { w with out := [], broadcasts := [] } room).adminClient = some me))
      w.db w.reg = _ := hdelete
  rw [step_eq_dispatch env hcmd (by simp [ht]), dispatch, ht]
  simp only [handleDelete, hcur, h₁, if_neg (not_le.mpr hpos), hres]
  rfl

/-- A client that passes for the sender of a row changes it without a right to. -/
theorem PassesForSender.not_changedByAuthors (hw : w.archive.Backed)
    (hpass : PassesForSender env w e) : ¬ChangedByAuthors w (step w (env, e)) e := by
  intro h
  cases hpass with
  | @edit conn me command row newText hcmd ht taken h₂ htext sql differs =>
    obtain ⟨hrow, hpos, hnamed, hlive, ⟨room, m, inside, hm, hmid, hdel, hsender⟩, hother⟩ := taken
    obtain ⟨idStr, h₁, hid⟩ := Option.map_eq_some_iff.mp hnamed
    have hpos' : 0 < atoll idStr := hid.symm ▸ hpos
    have found : (roomEditMessage env room (atoll idStr) (w.client me).clientName newText
        w.db w.reg).1 = .ok :=
      roomEditMessage_fst.trans ((changeMessage_ok_iff (hw room) hpos').mpr
        ⟨m, hm, hmid.trans hid.symm, hdel, decide_eq_true hsender⟩)
    have hrow' : { row with text := newText, editedAt := env.now } ∈
        (step w (env, e)).db.messages.rows := by
      rw [step_edit_db hcmd ht h₁ h₂ htext hpos' inside found, hid]
      simpa [hlive] using mem_edited newText sql hpos hrow
    cases h.text none _ _ _ _ (.row hrow) (.row hrow') rfl (Ne.symm differs) with
    | edit hcmd' _ _ _ author =>
      obtain ⟨-, rfl, -⟩ := hcmd.unique hcmd'
      exact hother author
    | delete hcmd' ht' =>
      obtain ⟨-, -, rfl⟩ := hcmd.unique hcmd'
      rw [ht] at ht'
      cases ht'
  | @delete conn me command row hcmd ht taken sql differs elsewhere =>
    obtain ⟨hrow, hpos, hnamed, hlive, ⟨room, m, inside, hm, hmid, hdel, hsender⟩, hother⟩ := taken
    obtain ⟨idStr, h₁, hid⟩ := Option.map_eq_some_iff.mp hnamed
    have hpos' : 0 < atoll idStr := hid.symm ▸ hpos
    have found : (roomDeleteMessage env room (atoll idStr) (w.client me).clientName
        (decide ((w.room room).adminClient = some me)) w.db w.reg).1 = .ok :=
      roomDeleteMessage_fst.trans ((changeMessage_ok_iff (hw room) hpos').mpr
        ⟨m, hm, hmid.trans hid.symm, hdel, decide_eq_true (.inl hsender)⟩)
    have hrow' : { row with deleted := true, text := "[deleted]".toList } ∈
        (step w (env, e)).db.messages.rows := by
      rw [step_delete_db hcmd ht h₁ hpos' inside found, hid]
      simpa [hlive] using mem_deleted sql hpos hrow
    cases h.text none _ _ _ _ (.row hrow) (.row hrow') rfl (Ne.symm differs) with
    | edit hcmd' ht' =>
      obtain ⟨-, -, rfl⟩ := hcmd.unique hcmd'
      rw [ht] at ht'
      cases ht'
    | delete hcmd' _ _ _ allowed =>
      obtain ⟨-, rfl, -⟩ := hcmd.unique hcmd'
      rcases allowed with hauthor | ⟨r, hr, hname, hadmin⟩
      · exact hother hauthor
      · exact elsewhere r hr hname hadmin

/-- An event changes messages as it may exactly if no client passes for the sender of a row. -/
theorem changedByAuthors_iff (hw : w.archive.Backed) (hsql : env.sql .saveMessage = .done)
    (hdef : ¬UsesFreed w e) :
    ChangedByAuthors w (step w (env, e)) e ↔ ¬PassesForSender env w e := by
  refine ⟨fun h hpass => hpass.not_changedByAuthors hw h, fun hpass => ?_⟩
  refine ⟨fun n m hm => ?_, fun place n n' m m' hm hm' hid htext => ?_, ?_⟩
  · obtain ⟨row, hrow, rfl, rfl⟩ := holds_none.mp hm
    obtain ⟨row', hrow', hid, hroom, hsender⟩ := step_keeps w env e row hrow
    exact ⟨row'.stored, holds_none.mpr ⟨row', hrow', hroom, rfl⟩, hid, hsender⟩
  · cases place with
    | none =>
      obtain ⟨row, hrow, rfl, rfl⟩ := holds_none.mp hm
      obtain ⟨row', hrow', -, rfl⟩ := holds_none.mp hm'
      exact (step_row_text hw hsql hdef hrow hrow' hid htext).resolve_right hpass
    | some r =>
      obtain ⟨live, rfl, hmem, hm⟩ := holds_some.mp hm
      obtain ⟨-, -, hmem', hm'⟩ := holds_some.mp hm'
      obtain ⟨i, rfl⟩ := exists_slot_of_mem_scan hmem
      obtain ⟨j, rfl⟩ := exists_slot_of_mem_scan hmem'
      exact step_slot_text hw hsql live hm hm' hid htext
  · exact fun conn me command idStr hcmd ht h₁ place n m hne => step_others hcmd ht h₁ hne

end Step

/-! ## Every run -/

theorem backed_init (cfg : Config) (db : Database) (start : ℤ) :
    (World.init cfg db start).archive.Backed :=
  backed_registryInit cfg db

theorem run_backed (cfg : Config) (db : Database) (start : ℤ) {inputs : List (Env × Event)}
    (hsaved : ∀ input ∈ inputs, input.1.sql .saveMessage = .done) :
    (run step (World.init cfg db start) inputs).archive.Backed :=
  run_invariant_along (I := fun w : World => w.archive.Backed)
    (C := fun _ (input : Env × Event) => input.1.sql .saveMessage = .done)
    (fun _ input hw hsql => step_backed hw hsql input.2) (backed_init cfg db start)
    (along_of_forall hsaved)

theorem run_keeps (w : World) (inputs : List (Env × Event)) :
    w.db.messages.Keeps (run step w inputs).db.messages :=
  run_invariant (I := fun w' : World => w.db.messages.Keeps w'.db.messages)
    (fun w' input h => h.trans (step_keeps w' input.1 input.2)) (.refl _) inputs

/-- In two states of a run, messages of one id have one room and, up to the cut, one sender. -/
theorem same_message (cfg : Config) (db : Database) (start : ℤ) {pre pre' : List (Env × Event)}
    (hpre : pre <+: pre') (hsaved : ∀ input ∈ pre', input.1.sql .saveMessage = .done)
    {place place' : Option RoomPtr} {n n' : Text} {m m' : Message}
    (hm : (run step (World.init cfg db start) pre).Holds place n m)
    (hm' : (run step (World.init cfg db start) pre').Holds place' n' m') (hid : m.id = m'.id) :
    n = n' ∧ strncpy maxUsernameLen m.sender = strncpy maxUsernameLen m'.sender ∧
      (place.isSome = place'.isSome → m.sender = m'.sender) := by
  obtain ⟨rest, rfl⟩ := hpre
  have hbacked := run_backed cfg db start fun input h =>
    hsaved input (List.mem_append_left rest h)
  obtain ⟨row, hrow, hrid, rfl, hsender⟩ := row_of_holds hbacked hm
  obtain ⟨row', hrow', hrid', rfl, hsender'⟩ := row_of_holds (run_backed cfg db start hsaved) hm'
  rw [run_append] at hrow'
  obtain ⟨row₁, hrow₁, hid₁, hroom₁, hsender₁⟩ := run_keeps _ rest row hrow
  obtain rfl := Messages.row_unique hrow₁ hrow' (by rw [hid₁, hrid, hid, hrid'])
  have hcut (b : Bool) : strncpy maxUsernameLen (if b then row.load.sender else row.sender) =
      strncpy maxUsernameLen row.sender := by
    cases b <;> simp [MessageRow.load]
  have hload : row₁.load.sender = row.load.sender := by
    rw [MessageRow.load, MessageRow.load, hsender₁]
  rw [hload, hsender₁] at hsender'
  refine ⟨hroom₁.symm, ?_, fun h => ?_⟩
  · rw [hsender, hsender', hcut, hcut]
  · rw [hsender, hsender', h]

/--
What a run may do to messages: none changes its identity, and its text only by
right. The copies of a message in the table and in a buffer agree on the sender
up to the length of a user name.
-/
structure KeepsAuthors (w : World) (inputs : List (Env × Event)) : Prop where
  same : ∀ pre pre', pre <+: inputs → pre' <+: inputs → ∀ place place' n n' m m',
    (run step w pre).Holds place n m → (run step w pre').Holds place' n' m' →
    m.id = m'.id → n = n' ∧ strncpy maxUsernameLen m.sender = strncpy maxUsernameLen m'.sender ∧
      (place.isSome = place'.isSome → m.sender = m'.sender)
  changed : Along step (fun w input => ChangedByAuthors w (step w input) input.2) w inputs

/-- Nobody is taken for the sender of a row with a legal user name. -/
theorem not_passesForSender (h : ∀ row ∈ w.db.messages.rows, row.load.sender = row.sender)
    (hw : w.archive.Backed) : ¬PassesForSender env w e := by
  have hnot {me : ClientPtr} {command : Cmd} {row : MessageRow} (ht : TakenFor w me command row) :
      False := by
    obtain ⟨hrow, hpos, -, -, ⟨room, m, -, hm, hmid, -, hsender⟩, hother⟩ := ht
    obtain ⟨i, rfl⟩ := exists_slot_of_mem_scan hm
    obtain ⟨row₀, hrow₀, hid₀, -, hload⟩ := (hw room).row i (ne_zeroMessage_of_pos (hmid ▸ hpos))
    obtain rfl := Messages.row_unique hrow₀ hrow (hid₀.trans hmid)
    exact hother ((hsender.symm.trans hload.symm).trans (h _ hrow))
  rintro (⟨-, -, ht⟩ | ⟨-, -, ht⟩) <;> exact hnot ht

/-- Alice and Bob write, edit and delete messages in the room that Alice created. -/
def writersRun : List (Env × Event) :=
  [(.calm 0 0 "t0".toList, .accept 4 false),
   (.calm 0 0 "t0".toList, .accept 5 false),
   (.calm 0 0 "t0".toList, .line 4 "REGISTER alice pw".toList),
   (.calm 0 1 "t1".toList, .line 5 "REGISTER bob pw".toList),
   (.calm 0 0 "t0".toList, .line 4 "CREATE lounge".toList),
   (.calm 0 0 "t0".toList, .line 5 "JOIN lounge".toList),
   (.calm 0 0 "t0".toList, .line 4 "MSG hi".toList),
   (.calm 0 0 "t0".toList, .line 5 "MSG hello".toList),
   (.calm 0 0 "t0".toList, .line 4 "EDIT 1 hi bob".toList),
   (.calm 0 0 "t0".toList, .line 5 "EDIT 1 mine".toList),
   (.calm 0 0 "t0".toList, .line 4 "DELETE 2".toList),
   (.calm 0 0 "t0".toList, .disconnect 5)]

/-- A message whose sender has a name of thirty-two bytes. -/
def longSender : Database :=
  { Database.empty with
    messages := ⟨[⟨1, "lounge".toList, List.replicate 32 'a', "hi".toList, 1, false, 0⟩], 1,
      by decide, by decide, by decide⟩ }

/-- A user with the first thirty-one bytes of the name creates the room of the message. -/
def namesakeRun : List (Env × Event) :=
  [(.calm 0 0 "t0".toList, .accept 4 false),
   (.calm 0 0 "t0".toList, .line 4 ("REGISTER ".toList ++ List.replicate 31 'a' ++ " pw".toList)),
   (.calm 0 0 "t0".toList, .line 4 "CREATE lounge".toList)]

end ChatServer
