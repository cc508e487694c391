import ChatServer.Concurrent.MessageHandlers

/-! # Edits and deletions of a room's messages

An EDIT and a DELETE change the message in the buffer and its row in the table
in two sections. In the table a deletion stays, in whatever order the statements
come; of several edits the last statement counts, which need not be that of the
edit that came last in the buffer.
-/

namespace ChatServer

open Library

/-- A message in the buffer is as its row has it. -/
def Agrees (t : Messages) (m : Message) : Prop :=
  ∃ row ∈ t.rows, row.id = m.id ∧ row.deleted = m.deleted ∧ strncpy maxTextLen row.text = m.text

/--
What holds between a message in the buffer and its row whatever the handlers
are at, given whether one of them has yet to delete the row.
-/
structure Tracks (deleting : Prop) (row : MessageRow) (m : Message) : Prop where
  deleted : row.deleted = true → m.deleted = true ∧ strncpy maxTextLen row.text = m.text
  pending : m.deleted = true → row.deleted = false → deleting ∧ m.text = "[deleted]".toList
  marked : deleting → m.deleted = true

variable {t : Messages} {m : Message} {row : MessageRow} {env : Env} {text : Text} {msgId : ℤ}

theorem agrees_iff (hrow : row ∈ t.rows) (hid : row.id = m.id) :
    Agrees t m ↔ row.deleted = m.deleted ∧ strncpy maxTextLen row.text = m.text := by
  constructor
  · rintro ⟨row', hrow', hid', hagrees⟩
    obtain rfl := Messages.row_unique hrow' hrow (hid'.trans hid.symm)
    exact hagrees
  · exact fun h => ⟨row, hrow, hid, h⟩

section Tracks

variable {P Q : Prop}

theorem Tracks.editEntry (h : Tracks P row m) (hm : m.deleted = false) :
    Tracks P row (editEntry env text m) where
  deleted hrow := absurd (h.deleted hrow).1 (by simp [hm])
  pending hdel := absurd hdel (by simp [ChatServer.editEntry, hm])
  marked hP := absurd (h.marked hP) (by simp [hm])

theorem Tracks.deleteEntry (h : Tracks P row m) (hm : m.deleted = false) (hQ : Q) :
    Tracks Q row (deleteEntry m) where
  deleted hrow := absurd (h.deleted hrow).1 (by simp [hm])
  pending _ _ := ⟨hQ, deleted_text⟩
  marked _ := rfl

theorem Tracks.editRow (h : Tracks P row m) (hrow : row.deleted = false) (time : ℤ) :
    Tracks P { row with text, editedAt := time } m where
  deleted hdel := absurd hdel (by simp [hrow])
  pending := h.pending
  marked := h.marked

theorem Tracks.deleteRow (h : Tracks P row m) (hP : P) (hrow : row.deleted = false) :
    Tracks Q { row with deleted := true, text := "[deleted]".toList } m where
  deleted _ := ⟨h.marked hP, by rw [(h.pending (h.marked hP) hrow).2, deleted_text]⟩
  pending _ hdel := absurd hdel (by simp)
  marked _ := h.marked hP

end Tracks

theorem agrees_edit_of_ne {db : Database} (hm : m.id ≠ msgId) :
    Agrees (dbEditMessage env msgId text db).messages m ↔ Agrees db.messages m := by
  refine exists_congr fun row => ?_
  by_cases hid : row.id = m.id
  · rw [mem_dbEditMessage_iff (hid ▸ hm)]
  · simp only [hid, false_and, and_false]

theorem agrees_delete_of_ne {db : Database} (hm : m.id ≠ msgId) :
    Agrees (dbDeleteMessage env msgId db).messages m ↔ Agrees db.messages m := by
  refine exists_congr fun row => ?_
  by_cases hid : row.id = m.id
  · rw [mem_dbDeleteMessage_iff (hid ▸ hm)]
  · simp only [hid, false_and, and_false]

theorem newRoom_agrees {n : Text} {c : ClientPtr} {reg : Registry} {db : Database} {k : ℕ}
    (hk : 0 < ((newRoom env n c reg db).history.slots k).id) :
    Agrees db.messages ((newRoom env n c reg db).history.slots k) := by
  obtain ⟨row, hrow, -, -, hslot⟩ := slot_newRoom hk
  rw [hslot]
  exact ⟨row, hrow, rfl, rfl, rfl⟩

section Race

variable {ι : Type*} [DecidableEq ι] {r : RoomPtr}
  {s : MessageThreads ι} {input : ι × Env × Option HistoryOp}

/-- The inputs of handlers that edit and delete messages of a room, all statements succeeding. -/
def Changing (r : RoomPtr) (input : ι × Env × Option HistoryOp) : Prop :=
  input.2.1.sql .editMessage = .done ∧ input.2.1.sql .deleteMessage = .done ∧
    ∀ op ∈ input.2.2, (∃ msgId requester newText, op = .edit r msgId requester newText) ∨
      ∃ msgId requester isAdmin, op = .delete r msgId requester isAdmin

/-- A handler has changed a message in the buffer and not yet in the table. -/
def Busy (s : MessageThreads ι) (msgId : ℤ) : Prop :=
  ∃ j, (s.loc j).changes = some msgId

/-- The messages of a room that no handler is working on are as their rows. -/
def Settled (r : RoomPtr) (s : MessageThreads ι) : Prop :=
  ∀ k, 0 < ((s.shared.2.rooms r).history.slots k).id →
    ¬ Busy s ((s.shared.2.rooms r).history.slots k).id →
    Agrees s.shared.1.messages ((s.shared.2.rooms r).history.slots k)

/--
The EDIT that moves, if it is to write its row and no other handler has yet to
do so, finds its own text in the buffer, or the message deleted.
-/
def KeepsLastEdit (r : RoomPtr) (s : MessageThreads ι)
    (input : ι × Env × Option HistoryOp) : Prop :=
  ∀ msgId newText, s.loc input.1 = .editRow msgId newText →
    (∀ j, j ≠ input.1 → (s.loc j).changes ≠ some msgId) →
    ∀ k, ((s.shared.2.rooms r).history.slots k).id = msgId →
      ((s.shared.2.rooms r).history.slots k).deleted = false →
      ((s.shared.2.rooms r).history.slots k).text = strncpy maxTextLen newText

/-- The messages of a room and the handlers that change them. -/
structure Editors (r : RoomPtr) (s : MessageThreads ι) : Prop where
  backed : (s.shared.2.rooms r).shelf.Backed s.shared.1.messages
  phase : ∀ i, s.loc i = .idle ∨ (∃ msgId newText, s.loc i = .editRow msgId newText ∧ 0 < msgId) ∨
    ∃ msgId, s.loc i = .deleteRow msgId ∧ 0 < msgId
  tracks : ∀ k, 0 < ((s.shared.2.rooms r).history.slots k).id → ∀ row ∈ s.shared.1.messages.rows,
    row.id = ((s.shared.2.rooms r).history.slots k).id →
    Tracks (Deleting s ((s.shared.2.rooms r).history.slots k).id) row
      ((s.shared.2.rooms r).history.slots k)

/-- What a step of a handler does to a room's buffer and the table. -/
inductive EditStep (r : RoomPtr) (s : MessageThreads ι) (i : ι)
    (env : Env) (s' : MessageThreads ι) : Prop
  | still (phase : s.loc i = .idle) (next : s'.loc i = .idle) (same : s'.shared = s.shared)
  | edit {k : ℕ} {newText : Text} (phase : s.loc i = .idle)
      (pos : 0 < ((s.shared.2.rooms r).history.slots k).id)
      (undeleted : ((s.shared.2.rooms r).history.slots k).deleted = false)
      (next : s'.loc i = .editRow ((s.shared.2.rooms r).history.slots k).id newText)
      (rows : s'.shared.1 = s.shared.1)
      (room : s'.shared.2.rooms r = { s.shared.2.rooms r with
        history := (s.shared.2.rooms r).history.set k
          (editEntry env newText ((s.shared.2.rooms r).history.slots k)) })
  | delete {k : ℕ} (phase : s.loc i = .idle)
      (pos : 0 < ((s.shared.2.rooms r).history.slots k).id)
      (undeleted : ((s.shared.2.rooms r).history.slots k).deleted = false)
      (next : s'.loc i = .deleteRow ((s.shared.2.rooms r).history.slots k).id)
      (rows : s'.shared.1 = s.shared.1)
      (room : s'.shared.2.rooms r = { s.shared.2.rooms r with
        history := (s.shared.2.rooms r).history.set k
          (deleteEntry ((s.shared.2.rooms r).history.slots k)) })
  | editRow {msgId : ℤ} {newText : Text} (phase : s.loc i = .editRow msgId newText)
      (pos : 0 < msgId) (next : s'.loc i = .idle)
      (rows : s'.shared.1 = dbEditMessage env msgId newText s.shared.1)
      (same : s'.shared.2 = s.shared.2)
  | deleteRow {msgId : ℤ} (phase : s.loc i = .deleteRow msgId) (pos : 0 < msgId)
      (next : s'.loc i = .idle) (rows : s'.shared.1 = dbDeleteMessage env msgId s.shared.1)
      (same : s'.shared.2 = s.shared.2)

theorem race_editStep (hs : Editors r s) (hin : Changing r input) :
    EditStep r s input.1 input.2.1 (messageRace ι s input) := by
  obtain ⟨i, env, op⟩ := input
  obtain ⟨-, -, hop⟩ := hin
  have hphases := hs.phase i
  rcases messageRace_cases s i env op with
    ⟨hphase, hnext, hshared⟩ | ⟨phase, next, hphase, hnext, hshared, hsection⟩
  · exact .still hphase hnext hshared
  · rw [hphase] at hphases
    cases hsection with
    | create _ => simpa using hop _ rfl
    | close _ => simpa using hop _ rfl
    | save _ _ => simpa using hop _ rfl
    | @edit r' msgId requester newText k live pos id undeleted =>
      obtain rfl : r' = r := by
        obtain ⟨_, _, _, heq⟩ | ⟨_, _, _, heq⟩ := hop _ rfl
        · cases heq
          rfl
        · cases heq
      subst id
      refine .edit hphase pos undeleted hnext (by rw [hshared]) ?_
      rw [hshared]
      simp
    | @delete r' msgId requester isAdmin k live pos id undeleted =>
      obtain rfl : r' = r := by
        obtain ⟨_, _, _, heq⟩ | ⟨_, _, _, heq⟩ := hop _ rfl
        · cases heq
        · cases heq
          rfl
      subst id
      refine .delete hphase pos undeleted hnext (by rw [hshared]) ?_
      rw [hshared]
      simp
    | addEntry => simp at hphases
    | @editRow msgId newText =>
      have hpos : 0 < msgId := by simpa using hphases
      exact .editRow hphase hpos hnext (by rw [hshared]) (by rw [hshared])
    | @deleteRow msgId =>
      have hpos : 0 < msgId := by simpa using hphases
      exact .deleteRow hphase hpos hnext (by rw [hshared]) (by rw [hshared])

variable {s' : MessageThreads ι} {i : ι}

omit [DecidableEq ι] in
theorem EditStep.backed (hs : Editors r s) (h : EditStep r s i env s') :
    (s'.shared.2.rooms r).shelf.Backed s'.shared.1.messages := by
  cases h with
  | still phase next same => exact same ▸ hs.backed
  | edit phase pos undeleted next rows room =>
    rw [rows, room]
    exact hs.backed.set pos rfl rfl
  | delete phase pos undeleted next rows room =>
    rw [rows, room]
    exact hs.backed.set pos rfl rfl
  | editRow phase pos next rows same =>
    rw [rows, same]
    exact hs.backed.mono dbEditMessage_keeps
  | deleteRow phase pos next rows same =>
    rw [rows, same]
    exact hs.backed.mono dbDeleteMessage_keeps

omit [DecidableEq ι] in
theorem EditStep.phase (hs : Editors r s) (hothers : ∀ j, j ≠ i → s'.loc j = s.loc j)
    (h : EditStep r s i env s') (j : ι) :
    s'.loc j = .idle ∨ (∃ msgId newText, s'.loc j = .editRow msgId newText ∧ 0 < msgId) ∨
      ∃ msgId, s'.loc j = .deleteRow msgId ∧ 0 < msgId := by
  rcases eq_or_ne j i with rfl | hne
  · cases h with
    | still phase next same => exact .inl next
    | edit phase pos undeleted next rows room => exact .inr (.inl ⟨_, _, next, pos⟩)
    | delete phase pos undeleted next rows room => exact .inr (.inr ⟨_, next, pos⟩)
    | editRow phase pos next rows same => exact .inl next
    | deleteRow phase pos next rows same => exact .inl next
  · rw [hothers j hne]
    exact hs.phase j

omit [DecidableEq ι] in
/-- A step that sets one slot keeps all in track if it keeps that one. -/
theorem tracks_set (hs : Editors r s) {k : ℕ} {m : Message}
    (pos : 0 < ((s.shared.2.rooms r).history.slots k).id)
    (rows : s'.shared.1 = s.shared.1)
    (room : s'.shared.2.rooms r =
      { s.shared.2.rooms r with history := (s.shared.2.rooms r).history.set k m })
    (hid : m.id = ((s.shared.2.rooms r).history.slots k).id)
    (hset : ∀ row, Tracks (Deleting s m.id) row ((s.shared.2.rooms r).history.slots k) →
      Tracks (Deleting s' m.id) row m)
    (hdeleting : ∀ msgId, msgId ≠ m.id → (Deleting s' msgId ↔ Deleting s msgId)) :
    ∀ k', 0 < ((s'.shared.2.rooms r).history.slots k').id →
      ∀ row ∈ s'.shared.1.messages.rows, row.id = ((s'.shared.2.rooms r).history.slots k').id →
        Tracks (Deleting s' ((s'.shared.2.rooms r).history.slots k').id) row
          ((s'.shared.2.rooms r).history.slots k') := by
  intro k' hk row hrow hrowid
  rw [room] at hk hrowid ⊢
  rw [rows] at hrow
  simp only [RingBuffer.set, Function.update_apply] at hk hrowid ⊢
  split_ifs at hk hrowid ⊢ with hslot
  · exact hset row (hid ▸ hs.tracks k pos row hrow (hrowid.trans hid))
  · have hne : ((s.shared.2.rooms r).history.slots k').id ≠ m.id := fun heq =>
      hslot (hs.backed.slot k' k (ne_zeroMessage_of_pos hk) (ne_zeroMessage_of_pos pos)
        (heq.trans hid))
    rw [hdeleting _ hne]
    exact hs.tracks k' hk row hrow hrowid

omit [DecidableEq ι] in
theorem EditStep.editors (hs : Editors r s) (hedit : env.sql .editMessage = .done)
    (hdelete : env.sql .deleteMessage = .done) (hothers : ∀ j, j ≠ i → s'.loc j = s.loc j)
    (h : EditStep r s i env s') : Editors r s' := by
  refine ⟨h.backed hs, h.phase hs hothers, ?_⟩
  cases h with
  | still phase next same =>
    intro k hk row hrow hid
    rw [same] at hk hrow hid ⊢
    rw [deleting_iff hothers (by simp [phase, next])]
    exact hs.tracks k hk row hrow hid
  | edit phase pos undeleted next rows room =>
    have hdeleting (msgId : ℤ) : Deleting s' msgId ↔ Deleting s msgId :=
      deleting_iff hothers (by simp [phase, next])
    refine tracks_set hs pos rows room rfl (fun row h => ?_) fun msgId _ => hdeleting msgId
    rw [hdeleting]
    exact h.editEntry undeleted
  | delete phase pos undeleted next rows room =>
    refine tracks_set hs pos rows room rfl (fun row h => h.deleteEntry undeleted ⟨i, next⟩)
      fun msgId hne => deleting_iff hothers ?_
    simpa [phase, next, deleteEntry] using Ne.symm hne
  | editRow phase pos next rows same =>
    intro k hk row hrow hid
    rw [same] at hk hid ⊢
    rw [rows, rows_dbEditMessage hedit pos] at hrow
    rw [deleting_iff hothers (by simp [phase, next])]
    obtain ⟨old, hold, rfl⟩ := List.mem_map.mp hrow
    split_ifs at hid ⊢ with hlive
    · exact (hs.tracks k hk old hold hid).editRow hlive.2 _
    · exact hs.tracks k hk old hold hid
  | @deleteRow msgId phase pos next rows same =>
    intro k hk row hrow hid
    rw [same] at hk hid ⊢
    rw [rows, rows_dbDeleteMessage hdelete pos] at hrow
    obtain ⟨old, hold, rfl⟩ := List.mem_map.mp hrow
    have hold' := hs.tracks k hk old hold (by split_ifs at hid <;> exact hid)
    by_cases hm : ((s.shared.2.rooms r).history.slots k).id = msgId
    · have hdeleting : Deleting s ((s.shared.2.rooms r).history.slots k).id := ⟨i, hm ▸ phase⟩
      split_ifs at hid ⊢ with hlive
      · exact hold'.deleteRow hdeleting hlive.2
      · exact ⟨hold'.deleted, fun _ h => absurd ⟨hid.trans hm, h⟩ hlive,
          fun _ => hold'.marked hdeleting⟩
    · have hkept : ¬ (old.id = msgId ∧ old.deleted = false) := by
        rintro ⟨rfl, -⟩
        split_ifs at hid <;> exact hm hid.symm
      rw [if_neg hkept]
      rw [deleting_iff hothers (by simp [phase, next, Ne.symm hm])]
      exact hold'

omit [DecidableEq ι] in
theorem busy_iff (hothers : ∀ j, j ≠ i → s'.loc j = s.loc j)
    (hi : (s'.loc i).changes = some msgId ↔ (s.loc i).changes = some msgId) :
    Busy s' msgId ↔ Busy s msgId :=
  Threads.exists_loc_iff (p := fun phase : MessagePhase => phase.changes = some msgId) hothers hi

omit [DecidableEq ι] in
theorem settled_of_start {k : ℕ} {x : Message} (hothers : ∀ j, j ≠ i → s'.loc j = s.loc j)
    (hi : Settled r s) (phase : s.loc i = .idle)
    (next : (s'.loc i).changes = some ((s.shared.2.rooms r).history.slots k).id)
    (rows : s'.shared.1 = s.shared.1) (room : s'.shared.2.rooms r = { s.shared.2.rooms r with
      history := (s.shared.2.rooms r).history.set k x })
    (hx : x.id = ((s.shared.2.rooms r).history.slots k).id) : Settled r s' := by
  intro k' hk hbusy
  rw [room] at hk hbusy ⊢
  rw [rows]
  simp only [RingBuffer.set, Function.update_apply] at hk hbusy ⊢
  split_ifs at hk hbusy ⊢ with hslot
  · exact absurd ⟨i, hx ▸ next⟩ hbusy
  · refine hi k' hk ?_
    rintro ⟨j, hj⟩
    refine hbusy ⟨j, ?_⟩
    rw [hothers j, hj]
    rintro rfl
    rw [phase] at hj
    cases hj

omit [DecidableEq ι] in
/-- What an EDIT writes agrees with the buffer if this has its text, or the message is deleted. -/
theorem Editors.agrees_edited_iff (hs : Editors r s) (hsql : env.sql .editMessage = .done)
    (newText : Text) {k : ℕ} (hk : 0 < ((s.shared.2.rooms r).history.slots k).id)
    (hdeleting : ¬ Deleting s ((s.shared.2.rooms r).history.slots k).id) :
    Agrees (dbEditMessage env ((s.shared.2.rooms r).history.slots k).id newText
        s.shared.1).messages ((s.shared.2.rooms r).history.slots k) ↔
      (((s.shared.2.rooms r).history.slots k).deleted = false →
        ((s.shared.2.rooms r).history.slots k).text = strncpy maxTextLen newText) := by
  obtain ⟨row, hrow, hid, -⟩ := hs.backed.row k (ne_zeroMessage_of_pos hk)
  have hid : row.id = ((s.shared.2.rooms r).history.slots k).id := hid
  have htracks := hs.tracks k hk row hrow hid
  have hwritten := mem_edited newText hsql (hid ▸ hk) hrow
  rw [← hid]
  cases hdel : row.deleted with
  | true =>
    rw [if_pos hdel] at hwritten
    obtain ⟨hmarked, htext⟩ := htracks.deleted hdel
    rw [agrees_iff hwritten hid, hmarked]
    exact iff_of_true ⟨hdel, htext⟩ (by simp)
  | false =>
    rw [if_neg (by simp [hdel])] at hwritten
    have hlive : ((s.shared.2.rooms r).history.slots k).deleted = false := by
      by_contra hmarked
      exact hdeleting (htracks.pending (by simpa using hmarked) hdel).1
    rw [agrees_iff hwritten hid, hlive]
    exact ⟨fun h _ => h.2.symm, fun h => ⟨hdel, (h rfl).symm⟩⟩

omit [DecidableEq ι] in
theorem Editors.agrees_deleted (hs : Editors r s) (hsql : env.sql .deleteMessage = .done) {k : ℕ}
    (hk : 0 < ((s.shared.2.rooms r).history.slots k).id)
    (hdeleting : Deleting s ((s.shared.2.rooms r).history.slots k).id) :
    Agrees (dbDeleteMessage env ((s.shared.2.rooms r).history.slots k).id s.shared.1).messages
      ((s.shared.2.rooms r).history.slots k) := by
  obtain ⟨row, hrow, hid, -⟩ := hs.backed.row k (ne_zeroMessage_of_pos hk)
  have hid : row.id = ((s.shared.2.rooms r).history.slots k).id := hid
  have htracks := hs.tracks k hk row hrow hid
  have hmarked := htracks.marked hdeleting
  have hwritten := mem_deleted hsql (hid ▸ hk) hrow
  rw [← hid]
  cases hdel : row.deleted with
  | true =>
    rw [if_pos hdel] at hwritten
    exact (agrees_iff hwritten hid).mpr ⟨hdel.trans hmarked.symm, (htracks.deleted hdel).2⟩
  | false =>
    rw [if_neg (by simp [hdel])] at hwritten
    refine (agrees_iff hwritten hid).mpr ⟨hmarked.symm, ?_⟩
    rw [(htracks.pending hmarked hdel).2, deleted_text]

omit [DecidableEq ι] in
/-- A step settles the messages that it ends the work on exactly if it keeps the last edit. -/
theorem EditStep.settled_iff (hs : Editors r s) (hedit : env.sql .editMessage = .done)
    (hdelete : env.sql .deleteMessage = .done) (hothers : ∀ j, j ≠ i → s'.loc j = s.loc j)
    (hi : Settled r s) (op : Option HistoryOp) (h : EditStep r s i env s') :
    Settled r s' ↔ KeepsLastEdit r s (i, env, op) := by
  cases h with
  | still phase next same =>
    refine iff_of_true (fun k hk hbusy => ?_) fun _ _ h => by cases phase.symm.trans h
    rw [same] at hk hbusy ⊢
    rw [busy_iff hothers (by rw [phase, next])] at hbusy
    exact hi k hk hbusy
  | edit phase pos undeleted next rows room =>
    refine iff_of_true ?_ fun _ _ h => by cases phase.symm.trans h
    exact settled_of_start hothers hi phase (by rw [next]; rfl) rows room rfl
  | delete phase pos undeleted next rows room =>
    refine iff_of_true ?_ fun _ _ h => by cases phase.symm.trans h
    exact settled_of_start hothers hi phase (by rw [next]; rfl) rows room rfl
  | @editRow msgId newText phase pos next rows same =>
    have hphase {msgId' : ℤ} : s.loc i ≠ .deleteRow msgId' := by rw [phase]; simp
    constructor
    · intro hsettled msgId' newText' hphase' hfree k hid
      obtain ⟨rfl, rfl⟩ := MessagePhase.editRow.inj (phase.symm.trans hphase')
      subst hid
      have hbusy : ¬ Busy s' ((s.shared.2.rooms r).history.slots k).id := by
        rintro ⟨j, hj⟩
        rcases eq_or_ne j i with rfl | hne
        · rw [next] at hj
          cases hj
        · exact hfree j hne (hothers j hne ▸ hj)
      have hdeleting : ¬ Deleting s ((s.shared.2.rooms r).history.slots k).id := by
        rintro ⟨j, hj⟩
        exact hfree j (fun h => hphase (h ▸ hj)) (by rw [hj]; rfl)
      have hagrees := hsettled k (by rw [same]; exact pos) (by rw [same]; exact hbusy)
      rw [rows, same] at hagrees
      exact (hs.agrees_edited_iff hedit newText pos hdeleting).mp hagrees
    · intro hkeep k hk hbusy
      rw [same] at hk hbusy ⊢
      rw [rows]
      have hfree (j : ι) (hne : j ≠ i) :
          (s.loc j).changes ≠ some ((s.shared.2.rooms r).history.slots k).id :=
        fun hj => hbusy ⟨j, hothers j hne ▸ hj⟩
      rcases eq_or_ne ((s.shared.2.rooms r).history.slots k).id msgId with rfl | hne
      · have hdeleting : ¬ Deleting s ((s.shared.2.rooms r).history.slots k).id := by
          rintro ⟨j, hj⟩
          exact hfree j (fun h => hphase (h ▸ hj)) (by rw [hj]; rfl)
        refine (hs.agrees_edited_iff hedit newText pos hdeleting).mpr ?_
        exact hkeep _ newText phase hfree k rfl
      · rw [agrees_edit_of_ne hne]
        refine hi k hk ?_
        rwa [← busy_iff hothers]
        simp [phase, next, MessagePhase.changes, hne.symm]
  | @deleteRow msgId phase pos next rows same =>
    refine iff_of_true (fun k hk hbusy => ?_) fun _ _ h => by cases phase.symm.trans h
    rw [same] at hk hbusy ⊢
    rw [rows]
    rcases eq_or_ne ((s.shared.2.rooms r).history.slots k).id msgId with rfl | hne
    · exact hs.agrees_deleted hdelete pos ⟨i, phase⟩
    · rw [agrees_delete_of_ne hne]
      refine hi k hk ?_
      rwa [← busy_iff hothers]
      simp [phase, next, MessagePhase.changes, hne.symm]

/-- When no handler is at work, every message in the buffer is as its row has it. -/
def Converged (r : RoomPtr) (s : MessageThreads ι) : Prop :=
  (∀ i, s.loc i = .idle) → ∀ k, 0 < ((s.shared.2.rooms r).history.slots k).id →
    Agrees s.shared.1.messages ((s.shared.2.rooms r).history.slots k)

omit [DecidableEq ι] in
theorem Settled.converged (h : Settled r s) : Converged r s := by
  refine fun hidle k hk => h k hk ?_
  rintro ⟨j, hj⟩
  rw [hidle j] at hj
  cases hj

omit [DecidableEq ι] in
theorem editors_start {s : Database × Registry} (hbacked : (s.2.rooms r).shelf.Backed s.1.messages)
    (hagrees : ∀ k, 0 < ((s.2.rooms r).history.slots k).id →
      Agrees s.1.messages ((s.2.rooms r).history.slots k)) :
    Editors r (messageStart (ι := ι) s) := by
  refine ⟨hbacked, fun _ => .inl rfl, fun k hk row hrow hid => ?_⟩
  obtain ⟨hdeleted, htext⟩ := (agrees_iff hrow hid).mp (hagrees k hk)
  refine ⟨fun h => ⟨hdeleted.symm.trans h, htext⟩, fun hmarked hlive => ?_, ?_⟩
  · exact absurd (hdeleted.trans hmarked) (by simp [hlive])
  · rintro ⟨j, hj⟩
    cases hj

/--
However the sections of EDITs and DELETEs on a room's messages interleave, the
messages that no handler is working on are as their rows throughout exactly if
every EDIT that ends the work on a message has its text in the buffer still, or
the message is deleted. In such a run the messages and the table converge.
-/
theorem edits_converge_iff (r : RoomPtr) (s : Database × Registry)
    (hbacked : (s.2.rooms r).shelf.Backed s.1.messages)
    (hagrees : ∀ k, 0 < ((s.2.rooms r).history.slots k).id →
      Agrees s.1.messages ((s.2.rooms r).history.slots k))
    {inputs : List (ι × Env × Option HistoryOp)} (hin : ∀ input ∈ inputs, Changing r input) :
    ((∀ fs, fs <+: inputs → Settled r (run (messageRace ι) (messageStart s) fs)) ↔
      Along (messageRace ι) (KeepsLastEdit r) (messageStart s) inputs) ∧
    (Along (messageRace ι) (KeepsLastEdit r) (messageStart s) inputs →
      ∀ fs, fs <+: inputs → Converged r (run (messageRace ι) (messageStart s) fs)) := by
  have hstep (s : MessageThreads ι) (input) (hin : Changing r input)
      (hs : Editors r s) : EditStep r s input.1 input.2.1 (messageRace ι s input) :=
    race_editStep hs hin
  have hothers (s : MessageThreads ι)
      (input : ι × Env × Option HistoryOp) (j : ι) (hj : j ≠ input.1) :
      (messageRace ι s input).loc j = s.loc j := Threads.step_loc_of_ne hj
  have hiff : (∀ fs, fs <+: inputs → Settled r (run (messageRace ι) (messageStart s) fs)) ↔
      Along (messageRace ι) (KeepsLastEdit r) (messageStart s) inputs := by
    refine (along_iff_prefixes_of (P := Changing r) (J := Editors r) (I := Settled r) ?_ ?_ ?_
      (editors_start hbacked hagrees) (fun k hk _ => hagrees k hk) hin).symm
    · exact fun s input hin hs =>
        (hstep s input hin hs).editors hs hin.1 hin.2.1 (hothers s input)
    · exact fun s input hin hs hi hkeep => ((hstep s input hin hs).settled_iff hs hin.1 hin.2.1
        (hothers s input) hi input.2.2).mpr hkeep
    · exact fun s input hin hs hi hkeep => ((hstep s input hin hs).settled_iff hs hin.1 hin.2.1
        (hothers s input) hi input.2.2).not.mpr hkeep
  exact ⟨hiff, fun hkeep fs hfs => (hiff.mpr hkeep fs hfs).converged⟩

end Race

/-- Alice's room, created again with the message she sent. -/
def reopened : Database × Registry :=
  run historyStep (.empty, registryInit ⟨4, 4, 4, 10⟩)
    [(.calm 0 0 [], .create "lounge".toList 0),
     (.calm 0 0 [], .add 0 "alice".toList "one".toList),
     (.calm 0 0 [], .deleteRoom 0),
     (.calm 1 0 [], .create "lounge".toList 0)]

/-- An EDIT by Alice from one of her two connections, or its second section. -/
def editSection (second : Bool) (newText : Option Text) : Bool × Env × Option HistoryOp :=
  (second, .calm 0 0 [], newText.map fun newText => .edit 1 1 "alice".toList newText)

/-- Her two EDITs reach the buffer in this order, and the table in this or the other. -/
def twoEdits (first : Bool) : List (Bool × Env × Option HistoryOp) :=
  [editSection false (some "two".toList), editSection true (some "three".toList),
   editSection first none, editSection (!first) none]

theorem twoEdits_changing (first : Bool) : ∀ input ∈ twoEdits first, Changing 1 input := by
  simp [twoEdits, editSection, Changing, Env.calm]

/-- The EDIT that came last in the buffer finds its text there when it writes its row. -/
theorem twoEdits_keepsLastEdit :
    Along (messageRace Bool) (KeepsLastEdit 1) (messageStart reopened) (twoEdits false) := by
  refine ⟨fun _ _ h => ?_, fun _ _ h => ?_, fun _ _ h hothers => ?_,
    fun msgId text h _ k hk _ => ?_, trivial⟩
  · cases h
  · cases h
  · obtain ⟨rfl, -⟩ := MessagePhase.editRow.inj h
    exact absurd rfl (hothers true (by decide))
  · obtain ⟨rfl, rfl⟩ := MessagePhase.editRow.inj h
    cases k with
    | zero => decide +kernel
    | succ k => exact absurd hk (by decide : (0 : ℤ) ≠ 1)

theorem edits_converge_in_turn :
    Converged 1 (run (messageRace Bool) (messageStart reopened) (twoEdits false)) :=
  (edits_converge_iff 1 reopened (backed_newRoom (by decide)) (fun _ hk => newRoom_agrees hk)
    (twoEdits_changing false)).2 twoEdits_keepsLastEdit _ List.prefix_rfl

/-- The EDIT that came first in the buffer comes last in the table. -/
theorem twoEdits_not_converged :
    ¬ ∀ fs, fs <+: twoEdits true →
        Converged 1 (run (messageRace Bool) (messageStart reopened) fs) := by
  intro h
  obtain ⟨row, hrow, hagrees⟩ := h (twoEdits true) List.prefix_rfl (by decide +kernel) 0
    (by decide +kernel)
  revert row
  decide +kernel

end ChatServer
