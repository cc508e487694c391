import ChatServer.History.Archive
import ChatServer.History.Buffer

/-! # Messages and their rows

Every message in a buffer has its row in the table, with the same sender up to
the length of a user name and under the name of the room, and one slot. The
statements of EDIT and DELETE, which find their row by its id alone, rest on
this.
-/

namespace ChatServer

open Library World

variable {env : Env} {w : World} {me c : ClientPtr} {command : Cmd} {r : RoomPtr} {reg : Registry}
  {db : Database} {n text sender : Text} {msgId : ℤ} {t t' : Messages}
  {h h' : RingBuffer Message} {s : Shelf} {m : Message}

/-- Every row of one table is in the other, up to its content. -/
def Messages.Keeps (t t' : Messages) : Prop :=
  ∀ row ∈ t.rows, ∃ row' ∈ t'.rows, row'.id = row.id ∧ row'.room = row.room ∧
    row'.sender = row.sender

namespace Messages

theorem Keeps.refl (t : Messages) : t.Keeps t := fun row hrow => ⟨row, hrow, rfl, rfl, rfl⟩

theorem Keeps.trans {t'' : Messages} (h₁ : t.Keeps t') (h₂ : t'.Keeps t'') : t.Keeps t'' := by
  intro row hrow
  obtain ⟨row', hrow', hid, hroom, hsender⟩ := h₁ row hrow
  obtain ⟨row'', hrow'', hid', hroom', hsender'⟩ := h₂ row' hrow'
  exact ⟨row'', hrow'', hid'.trans hid, hroom'.trans hroom, hsender'.trans hsender⟩

theorem keeps_insert (gap : ℕ) (row : MessageRow) : t.Keeps (t.insert gap row) :=
  fun row hrow => ⟨row, List.mem_append_left _ hrow, rfl, rfl, rfl⟩

theorem keeps_update {p : MessageRow → Bool} {f : MessageRow → MessageRow}
    (hf : ∀ row, (f row).id = row.id) (hroom : ∀ row, (f row).room = row.room)
    (hsender : ∀ row, (f row).sender = row.sender) : t.Keeps (t.update p f hf) := by
  intro row hrow
  refine ⟨_, List.mem_map_of_mem hrow, ?_⟩
  split_ifs
  · exact ⟨hf row, hroom row, hsender row⟩
  · exact ⟨rfl, rfl, rfl⟩

theorem row_unique {row row' : MessageRow} (hrow : row ∈ t.rows) (hrow' : row' ∈ t.rows)
    (hid : row.id = row'.id) : row = row' :=
  List.inj_on_of_nodup_map (List.pairwise_map.mpr (t.sorted.imp fun h => ne_of_lt h)) hrow hrow' hid

end Messages

theorem dbSaveMessage_keeps (env : Env) (n sender text : Text) (db : Database) :
    db.messages.Keeps (dbSaveMessage env n sender text db).2.messages := by
  unfold dbSaveMessage
  split
  · exact Messages.keeps_insert _ _
  · exact .refl _

theorem dbEditMessage_keeps : db.messages.Keeps (dbEditMessage env msgId text db).messages := by
  unfold dbEditMessage
  split_ifs
  · exact .refl _
  · split
    · apply Messages.keeps_update <;> exact fun _ => rfl
    · exact .refl _

theorem dbDeleteMessage_keeps : db.messages.Keeps (dbDeleteMessage env msgId db).messages := by
  unfold dbDeleteMessage
  split_ifs
  · exact .refl _
  · split
    · apply Messages.keeps_update <;> exact fun _ => rfl
    · exact .refl _

theorem rows_dbEditMessage (hsql : env.sql .editMessage = .done) (hpos : 0 < msgId) :
    (dbEditMessage env msgId text db).messages.rows = db.messages.rows.map fun row =>
      if row.id = msgId ∧ row.deleted = false then { row with text, editedAt := env.now }
      else row := by
  simp only [dbEditMessage, if_neg (not_le.mpr hpos), hsql, Messages.update, decide_eq_true_eq]

theorem rows_dbDeleteMessage (hsql : env.sql .deleteMessage = .done) (hpos : 0 < msgId) :
    (dbDeleteMessage env msgId db).messages.rows = db.messages.rows.map fun row =>
      if row.id = msgId ∧ row.deleted = false
      then { row with deleted := true, text := "[deleted]".toList } else row := by
  simp only [dbDeleteMessage, if_neg (not_le.mpr hpos), hsql, Messages.update, decide_eq_true_eq]

theorem mem_replaced {α : Type*} {l : List α} {p : α → Bool} {f : α → α} {x : α}
    (h : x ∈ l.map fun y => if p y then f y else y) : x ∈ l ∨ ∃ y ∈ l, p y ∧ x = f y := by
  obtain ⟨y, hy, rfl⟩ := List.mem_map.mp h
  split_ifs with hp
  · exact .inr ⟨y, hy, hp, rfl⟩
  · exact .inl hy

theorem dbSaveMessage_done (n sender text : Text) (db : Database)
    (hsql : env.sql .saveMessage = .done) :
    let saved := dbSaveMessage env n sender text db
    db.messages.seq < saved.1 ∧ saved.2.messages.rows = db.messages.rows ++
      [⟨saved.1, n, sender, text, env.now, false, 0⟩] := by
  simp only [dbSaveMessage, hsql, Messages.insert]
  exact ⟨by omega, trivial⟩

theorem mem_dbSaveMessage {row' : MessageRow}
    (h : row' ∈ (dbSaveMessage env n sender text db).2.messages.rows) :
    row' ∈ db.messages.rows ∨ env.sql .saveMessage = .done ∧
      row' = ⟨(dbSaveMessage env n sender text db).1, n, sender, text, env.now, false, 0⟩ := by
  by_cases hsql : env.sql .saveMessage = .done
  · rw [(dbSaveMessage_done _ _ _ _ hsql).2] at h
    rcases List.mem_append.mp h with h | h
    · exact .inl h
    · exact .inr ⟨hsql, List.mem_singleton.mp h⟩
  · unfold dbSaveMessage at h
    split at h
    · exact absurd ‹_› hsql
    · exact .inl h

theorem mem_dbEditMessage {row' : MessageRow}
    (h : row' ∈ (dbEditMessage env msgId text db).messages.rows) :
    row' ∈ db.messages.rows ∨ ∃ row ∈ db.messages.rows, row.id = msgId ∧ row.deleted = false ∧
      env.sql .editMessage = .done ∧ row' = { row with text := text, editedAt := env.now } := by
  unfold dbEditMessage at h
  split_ifs at h
  · exact .inl h
  · split at h
    · rename_i hsql
      refine (mem_replaced h).imp_right ?_
      rintro ⟨row, hrow, hp, rfl⟩
      obtain ⟨hid, hlive⟩ := of_decide_eq_true hp
      exact ⟨row, hrow, hid, hlive, hsql, rfl⟩
    · exact .inl h

theorem mem_dbDeleteMessage {row' : MessageRow}
    (h : row' ∈ (dbDeleteMessage env msgId db).messages.rows) :
    row' ∈ db.messages.rows ∨ ∃ row ∈ db.messages.rows, row.id = msgId ∧ row.deleted = false ∧
      env.sql .deleteMessage = .done ∧
      row' = { row with deleted := true, text := "[deleted]".toList } := by
  unfold dbDeleteMessage at h
  split_ifs at h
  · exact .inl h
  · split at h
    · rename_i hsql
      refine (mem_replaced h).imp_right ?_
      rintro ⟨row, hrow, hp, rfl⟩
      obtain ⟨hid, hlive⟩ := of_decide_eq_true hp
      exact ⟨row, hrow, hid, hlive, hsql, rfl⟩
    · exact .inl h

theorem mem_replaced_iff {α : Type*} {l : List α} {p : α → Bool} {f : α → α} {x : α}
    (hx : p x = false) (hf : ∀ y, p y → f y ≠ x) :
    (x ∈ l.map fun y => if p y then f y else y) ↔ x ∈ l := by
  constructor
  · intro h
    rcases mem_replaced h with h | ⟨y, -, hp, rfl⟩
    · exact h
    · exact absurd rfl (hf y hp)
  · exact fun h => List.mem_map.mpr ⟨x, h, by rw [hx]; rfl⟩

theorem mem_dbEditMessage_iff {row : MessageRow} (hne : row.id ≠ msgId) :
    row ∈ (dbEditMessage env msgId text db).messages.rows ↔ row ∈ db.messages.rows := by
  unfold dbEditMessage
  split_ifs
  · exact Iff.rfl
  · split
    · refine mem_replaced_iff (by simp [hne]) fun y hp => ?_
      rintro rfl
      exact hne (of_decide_eq_true hp).1
    · exact Iff.rfl

theorem mem_dbDeleteMessage_iff {row : MessageRow} (hne : row.id ≠ msgId) :
    row ∈ (dbDeleteMessage env msgId db).messages.rows ↔ row ∈ db.messages.rows := by
  unfold dbDeleteMessage
  split_ifs
  · exact Iff.rfl
  · split
    · refine mem_replaced_iff (by simp [hne]) fun y hp => ?_
      rintro rfl
      exact hne (of_decide_eq_true hp).1
    · exact Iff.rfl

theorem mem_edited (text : Text) {row : MessageRow} (hsql : env.sql .editMessage = .done)
    (hpos : 0 < row.id) (hrow : row ∈ db.messages.rows) :
    (if row.deleted then row else { row with text, editedAt := env.now }) ∈
      (dbEditMessage env row.id text db).messages.rows := by
  rw [rows_dbEditMessage hsql hpos]
  refine List.mem_map.mpr ⟨row, hrow, ?_⟩
  cases row.deleted <;> simp

theorem mem_deleted {row : MessageRow} (hsql : env.sql .deleteMessage = .done) (hpos : 0 < row.id)
    (hrow : row ∈ db.messages.rows) :
    (if row.deleted then row else { row with deleted := true, text := "[deleted]".toList }) ∈
      (dbDeleteMessage env row.id db).messages.rows := by
  rw [rows_dbDeleteMessage hsql hpos]
  refine List.mem_map.mpr ⟨row, hrow, ?_⟩
  cases row.deleted <;> simp

/-- Each message of a buffer has its row, and one slot. Empty slots are zero. -/
structure Shelf.Backed (t : Messages) (s : Shelf) : Prop where
  row : ∀ i, s.history.slots i ≠ zeroMessage → ∃ row ∈ t.rows, row.id = (s.history.slots i).id ∧
    row.room = s.roomName ∧ row.load.sender = (s.history.slots i).sender
  slot : ∀ i j, s.history.slots i ≠ zeroMessage → s.history.slots j ≠ zeroMessage →
    (s.history.slots i).id = (s.history.slots j).id → i = j

theorem ne_zeroMessage_of_pos (hid : 0 < m.id) : m ≠ zeroMessage := by
  rintro rfl
  exact lt_irrefl (0 : ℤ) hid

namespace Shelf.Backed

theorem mono (hs : s.Backed t) (ht : t.Keeps t') : s.Backed t' := by
  refine ⟨fun i hi => ?_, hs.slot⟩
  obtain ⟨row, hrow, hid, hroom, hsender⟩ := hs.row i hi
  obtain ⟨row', hrow', hid', hroom', hsender'⟩ := ht row hrow
  refine ⟨row', hrow', hid'.trans hid, hroom'.trans hroom, ?_⟩
  rw [← hsender, MessageRow.load, MessageRow.load, hsender']

theorem empty (n : Text) (cap : ℕ) : Shelf.Backed t ⟨n, .empty zeroMessage cap⟩ :=
  ⟨fun _ hi => absurd rfl hi, fun _ _ hi => absurd rfl hi⟩

theorem write (hs : Shelf.Backed t ⟨n, h⟩) (count : ℕ)
    (hrow : ∃ row ∈ t.rows, row.id = m.id ∧ row.room = n ∧ row.load.sender = m.sender)
    (hnew : ∀ i, h.slots i ≠ zeroMessage → (h.slots i).id ≠ m.id) :
    Shelf.Backed t ⟨n, h.write m count⟩ := by
  have hslots : (h.write m count).slots = Function.update h.slots h.slot m := rfl
  refine ⟨fun i hi => ?_, fun i j hi hj hij => ?_⟩
  · simp only [hslots, Function.update_apply] at hi ⊢
    split_ifs at hi ⊢ with he
    · exact hrow
    · exact hs.row i hi
  · simp only [hslots, Function.update_apply] at hi hj hij
    split_ifs at hi hj hij with hi' hj' hj'
    · rw [hi', hj']
    · exact absurd hij.symm (hnew j hj)
    · exact absurd hij (hnew i hi)
    · exact hs.slot i j hi hj hij

theorem set (hs : Shelf.Backed t ⟨n, h⟩) {k : ℕ} (hpos : 0 < (h.slots k).id)
    (hid : m.id = (h.slots k).id) (hsender : m.sender = (h.slots k).sender) :
    Shelf.Backed t ⟨n, h.set k m⟩ := by
  have hslots (i : ℕ) : ((h.set k m).slots i).id = (h.slots i).id ∧
      ((h.set k m).slots i).sender = (h.slots i).sender ∧
      ((h.set k m).slots i ≠ zeroMessage → h.slots i ≠ zeroMessage) := by
    simp only [RingBuffer.set, Function.update_apply]
    split_ifs with he
    · exact ⟨he ▸ hid, he ▸ hsender, fun _ => he ▸ ne_zeroMessage_of_pos hpos⟩
    · exact ⟨rfl, rfl, id⟩
  refine ⟨fun i hi => ?_, fun i j hi hj hij => ?_⟩
  · simp only [hslots]
    exact hs.row i ((hslots i).2.2 hi)
  · simp only [hslots] at hij
    exact hs.slot i j ((hslots i).2.2 hi) ((hslots j).2.2 hj) hij

theorem id_le (hs : s.Backed t) (i : ℕ) : (s.history.slots i).id ≤ t.seq := by
  by_cases hi : s.history.slots i = zeroMessage
  · rw [hi]
    exact t.seq_nonneg
  · obtain ⟨row, hrow, hid, -⟩ := hs.row i hi
    exact hid ▸ t.ids row hrow

theorem load (hs : Shelf.Backed t ⟨n, h⟩) {rows : List Message}
    (hrows : ∀ m ∈ rows, ∃ row ∈ t.rows, row.room = n ∧ m = row.load)
    (hids : rows.Pairwise fun m m' => m.id ≠ m'.id)
    (hnew : ∀ m ∈ rows, ∀ i, h.slots i ≠ zeroMessage → (h.slots i).id ≠ m.id) :
    Shelf.Backed t ⟨n, rows.foldl loadMessage h⟩ := by
  induction rows generalizing h with
  | nil => exact hs
  | cons m rows ih =>
    obtain ⟨⟨row, hrow, hroom, rfl⟩, hrest⟩ := List.forall_mem_cons.mp hrows
    obtain ⟨hfirst, hids⟩ := List.pairwise_cons.mp hids
    obtain ⟨hmnew, hnew⟩ := List.forall_mem_cons.mp hnew
    refine ih (hs.write _ ⟨row, hrow, rfl, hroom, ?_⟩ hmnew) hrest hids fun m' hm' i hi => ?_
    · simp [MessageRow.load]
    · simp only [loadMessage, RingBuffer.write, Function.update_apply] at hi ⊢
      split_ifs at hi ⊢
      · exact hfirst m' hm'
      · exact hnew m' hm' i hi

end Shelf.Backed

/-- Every message of every buffer has its row. -/
def Archive.Backed (a : Archive) : Prop := ∀ r, (a.shelves r).Backed a.messages

theorem backed_registryInit (cfg : Config) (db : Database) :
    (archiveOf (registryInit cfg) db).Backed :=
  fun _ => ⟨fun _ hi => absurd rfl hi, fun _ _ hi => absurd rfl hi⟩

theorem Archive.Backed.update {a : Archive} (ha : a.Backed) (ht : a.messages.Keeps t')
    (hs : s.Backed t') : Archive.Backed ⟨t', Function.update a.shelves r s⟩ := by
  intro r'
  simp only [Function.update_apply]
  split_ifs
  · exact hs
  · exact (ha r').mono ht

theorem dbLoadHistory_sorted (env : Env) (n : Text) (limit : ℕ) (db : Database) :
    (dbLoadHistory env n limit db).Pairwise (fun m m' => m.id < m'.id) ∧
      (dbLoadHistory env n limit db).length ≤ limit := by
  unfold dbLoadHistory
  split_ifs
  · simp
  · have hsub := Sql.rows_sublist (env.sql .loadHistory)
      (((db.messages.ofRoom n).rtake limit).map MessageRow.load)
    refine ⟨List.Pairwise.sublist hsub (List.pairwise_map.mpr ?_), hsub.length_le.trans ?_⟩
    · exact db.messages.sorted.sublist ((List.drop_sublist _ _).trans List.filter_sublist)
    · rw [List.length_map, length_rtake]
      exact Nat.min_le_left _ _

theorem loadedRows_sorted (env : Env) (n : Text) (limit : ℕ) (db : Database) :
    (loadedRows env n limit db).Pairwise (fun m m' => m.id < m'.id) ∧
      (loadedRows env n limit db).length ≤ limit :=
  have hsub := loadedRows_sublist env n limit db
  have hload := dbLoadHistory_sorted env n limit db
  ⟨hload.1.sublist hsub, hsub.length_le.trans hload.2⟩

theorem mem_loadedRows (env : Env) (n : Text) (limit : ℕ) (db : Database) :
    (∀ m ∈ loadedRows env n limit db,
      ∃ row ∈ db.messages.rows, row.room = n ∧ m = row.load) ∧
      (loadedRows env n limit db).Pairwise fun m m' => m.id ≠ m'.id := by
  refine ⟨fun m hm => ?_, (loadedRows_sorted env n limit db).1.imp fun h => ne_of_lt h⟩
  replace hm := (loadedRows_sublist env n limit db).subset hm
  revert m
  unfold dbLoadHistory
  split_ifs
  · simp
  · intro m hm
    obtain ⟨row, hrow, rfl⟩ := List.mem_map.mp (Sql.mem_of_mem_rows hm)
    obtain ⟨hmem, hroom⟩ := List.mem_filter.mp (mem_of_mem_rtake hrow)
    exact ⟨row, hmem, of_decide_eq_true hroom, rfl⟩

theorem backed_newRoom (hn : badLength maxRoomNameLen n = false) :
    (newRoom env n c reg db).shelf.Backed db.messages := by
  have hname : strncpy maxRoomNameLen n = n := by
    refine strncpy_eq_self ?_
    simp only [badLength, decide_eq_false_iff_not, not_or, not_le] at hn
    exact hn.2
  obtain ⟨hrows, hids⟩ := mem_loadedRows env n reg.historySize db
  simp only [Room.shelf, newRoom, hname]
  exact (Shelf.Backed.empty n _).load hrows hids fun _ _ _ hi => absurd rfl hi

theorem slots_foldl_loadMessage (rows : List Message) (h : RingBuffer Message) (k : ℕ) :
    (rows.foldl loadMessage h).slots k = h.slots k ∨ ∃ m ∈ rows,
      (rows.foldl loadMessage h).slots k = { m with
        sender := strncpy maxUsernameLen m.sender
        text := strncpy maxTextLen m.text } := by
  induction rows generalizing h with
  | nil => exact .inl rfl
  | cons m rows ih =>
    rcases ih (loadMessage h m) with hkept | ⟨m', hm', hslot⟩
    · rw [List.foldl_cons, hkept]
      simp only [loadMessage, RingBuffer.write, Function.update_apply]
      split_ifs
      · exact .inr ⟨m, List.mem_cons_self, rfl⟩
      · exact .inl rfl
    · exact .inr ⟨m', List.mem_cons_of_mem _ hm', hslot⟩

theorem slot_newRoom {k : ℕ} (hk : 0 < ((newRoom env n c reg db).history.slots k).id) :
    ∃ row ∈ db.messages.rows, row.room = n ∧
      (newRoom env n c reg db).history.slots k ∈ loadedRows env n reg.historySize db ∧
      (newRoom env n c reg db).history.slots k = row.load := by
  obtain ⟨hrows, -⟩ := mem_loadedRows env n reg.historySize db
  rcases slots_foldl_loadMessage (loadedRows env n reg.historySize db)
    (.empty zeroMessage reg.historySize) k with hblank | ⟨m, hm, hslot⟩
  · have hzero : (newRoom env n c reg db).history.slots k = zeroMessage := hblank
    rw [hzero] at hk
    exact absurd hk (lt_irrefl (0 : ℤ))
  · obtain ⟨row, hrow, hroom, rfl⟩ := hrows m hm
    have hload : (newRoom env n c reg db).history.slots k = row.load := by
      refine hslot.trans ?_
      simp [MessageRow.load]
    exact ⟨row, hrow, hroom, hload.symm ▸ hm, hload⟩

theorem id_of_added {db' : Database} {reg' : Registry} (hsql : env.sql .saveMessage = .done)
    (h : roomAddHistory env r sender text db reg = (msgId, db', reg')) :
    msgId = (dbSaveMessage env (reg.rooms r).roomName sender text db).1 := by
  have hid := congrArg Prod.fst h
  have hpos : ¬ (dbSaveMessage env (reg.rooms r).roomName sender text db).1 ≤ 0 :=
    not_le.mpr (lt_of_le_of_lt db.messages.seq_nonneg (dbSaveMessage_done _ _ _ _ hsql).1)
  simp only [roomAddHistory, hpos, if_false] at hid
  split_ifs at hid <;> exact hid.symm

theorem backed_addMessage (hsql : env.sql .saveMessage = .done)
    (hs : Shelf.Backed db.messages ⟨n, h⟩) :
    let saved := dbSaveMessage env n sender text db
    Shelf.Backed saved.2.messages ⟨n, addMessage h (newMessage env saved.1 sender text)⟩ := by
  obtain ⟨hnew, hrows⟩ := dbSaveMessage_done n sender text db hsql
  have hkeep : Shelf.Backed (dbSaveMessage env n sender text db).2.messages ⟨n, h⟩ :=
    hs.mono (dbSaveMessage_keeps _ _ _ _ _)
  refine hkeep.write _ ⟨⟨_, n, sender, text, env.now, false, 0⟩, ?_, rfl, rfl, rfl⟩ fun i _ hi => ?_
  · rw [hrows]
    exact List.mem_append_right _ (List.mem_singleton_self _)
  · have hle : (h.slots i).id ≤ db.messages.seq := hs.id_le i
    rw [hi] at hle
    exact absurd hle (not_le.mpr hnew)

/-- What a client's command does to the messages keeps them backed, if the row is saved. -/
theorem Archives.backed {a : Archive} (hw : w.archive.Backed) (hsql : env.sql .saveMessage = .done)
    (ha : Archives env w me command a) : a.Backed := by
  cases ha with
  | @create n r reg ht h₁ made =>
    obtain ⟨-, hlen, hshelves⟩ := shelvesOf_of_created made
    rw [archiveOf, hshelves]
    exact hw.update (.refl _) (backed_newRoom hlen)
  | @msg text room msgId db reg ht h₁ inside htext free added =>
    obtain ⟨rfl, hshelves⟩ := shelvesOf_of_added added
    rw [archiveOf, hshelves]
    refine hw.update (dbSaveMessage_keeps _ _ _ _ _) ?_
    split_ifs with hcap
    · exact (hw room).mono (dbSaveMessage_keeps _ _ _ _ _)
    · rw [id_of_added hsql added]
      exact backed_addMessage hsql (hw room)
  | @edit idStr newText room db reg ht h₁ h₂ inside htext hpos edited =>
    obtain ⟨rfl, h', hchange, hshelves⟩ := shelvesOf_of_edited edited
    obtain ⟨k, hid, -, -, rfl⟩ := changeMessage_set hchange
    rw [archiveOf, hshelves]
    exact hw.update dbEditMessage_keeps
      (((hw room).mono dbEditMessage_keeps).set (hid ▸ hpos) rfl rfl)
  | @delete idStr room db reg ht h₁ inside hpos deleted =>
    obtain ⟨rfl, h', hchange, hshelves⟩ := shelvesOf_of_deleted deleted
    obtain ⟨k, hid, -, -, rfl⟩ := changeMessage_set hchange
    rw [archiveOf, hshelves]
    exact hw.update dbDeleteMessage_keeps
      (((hw room).mono dbDeleteMessage_keeps).set (hid ▸ hpos) rfl rfl)

end ChatServer
