import ChatServer.Concurrent.MessageHandlers

/-! # Deletions are final

A message that is deleted in the buffer of its room and in the table stays so.
The statements of the table keep it deleted whatever their order; a buffer may
show it again only if it is loaded between the two sections of the deletion, or
entered by a worker that has the address of a room since deleted.
-/

namespace ChatServer

open Library

/-- A message is deleted wherever a live room stores it. -/
def GoneFromRooms (msgId : ℤ) (reg : Registry) : Prop :=
  ∀ r ∈ reg.roomList, ∀ k, ((reg.rooms r).history.slots k).id = msgId →
    ((reg.rooms r).history.slots k).deleted = true ∧
      ((reg.rooms r).history.slots k).text = "[deleted]".toList

/-- A message is deleted in the table. -/
def GoneFromTable (msgId : ℤ) (t : Messages) : Prop :=
  ∃ row ∈ t.rows, row.id = msgId ∧ row.deleted = true ∧ row.text = "[deleted]".toList

/-- Live rooms have different names. -/
def NamesApart (reg : Registry) : Prop :=
  ∀ r ∈ reg.roomList, ∀ r' ∈ reg.roomList,
    (reg.rooms r).roomName = (reg.rooms r').roomName → r = r'

/-! ## The buffers after a section -/

section Buffers

variable (reg : Registry) (r r' : RoomPtr) (k k' : ℕ)

theorem slots_modifyRoom_set (f : Message → Message) :
    ((reg.modifyRoom r fun room => { room with
      history := room.history.set k (f (room.history.slots k)) }).rooms r').history.slots k' =
      if r' = r ∧ k' = k then f ((reg.rooms r).history.slots k)
      else (reg.rooms r').history.slots k' := by
  rcases eq_or_ne r' r with rfl | hr
  · simp [RingBuffer.set, Function.update_apply]
  · simp [hr]

theorem roomName_modifyRoom_set (f : Message → Message) :
    ((reg.modifyRoom r fun room => { room with
      history := room.history.set k (f (room.history.slots k)) }).rooms r').roomName =
      (reg.rooms r').roomName := by
  rcases eq_or_ne r' r with rfl | hr
  · simp
  · simp [hr]

variable (env : Env) (msgId : ℤ) (sender text : Text)

theorem slots_enterHistory :
    ((enterHistory env r msgId sender text reg).rooms r').history.slots k' =
      if r' = r ∧ (reg.rooms r).history.cap ≠ 0 ∧ k' = (reg.rooms r).history.slot
      then newMessage env msgId sender text else (reg.rooms r').history.slots k' := by
  unfold enterHistory
  by_cases hcap : (reg.rooms r).history.cap = 0
  · simp [hcap]
  · rcases eq_or_ne r' r with rfl | hr
    · simp [hcap, addMessage, RingBuffer.write, Function.update_apply]
    · simp [hcap, hr]

theorem enterHistory_keeps :
    (enterHistory env r msgId sender text reg).roomList = reg.roomList ∧
      ((enterHistory env r msgId sender text reg).rooms r').roomName =
        (reg.rooms r').roomName := by
  unfold enterHistory
  split_ifs
  · exact ⟨rfl, rfl⟩
  · refine ⟨rfl, ?_⟩
    rcases eq_or_ne r' r with rfl | hr
    · simp
    · simp [hr]

end Buffers

/-! ## One section -/

section Race

variable {ι : Type*} {s s' : MessageThreads ι} {i : ι} {env : Env}
  {op : Option HistoryOp} {msgId : ℤ}

/--
A room that is created gets an address that no worker is about to enter, and
does not load, not deleted, a message that a handler has yet to delete.
-/
def NoReload (s : MessageThreads ι) (input : ι × Env × Option HistoryOp) : Prop :=
  ∀ n c r reg, s.loc input.1 = .idle → input.2.2 = some (.create n c) →
    createRoom input.2.1 (some n) (some c) s.shared.1 s.shared.2 = (.ok, some r, reg) →
    (∀ j msgId sender text, s.loc j ≠ .addEntry r msgId sender text) ∧
    ∀ m ∈ loadedRows input.2.1 n s.shared.2.historySize s.shared.1,
      Deleting s m.id → m.deleted = true

/-- A message that is in the table and not yet in the buffer of its room. -/
structure Waits (s : Database × Registry) (r : RoomPtr) (msgId : ℤ) (sender : Text) : Prop where
  row : ∃ row ∈ s.1.messages.rows, row.id = msgId ∧ row.room = (s.2.rooms r).roomName ∧
    row.load.sender = strncpy maxUsernameLen sender
  absent : ∀ k, ((s.2.rooms r).history.slots k).id ≠ msgId

/-- The messages, the rooms and the handlers between their sections. -/
structure Orderly (s : MessageThreads ι) : Prop where
  backed : (archiveOf s.shared.2 s.shared.1).Backed
  names : NamesApart s.shared.2
  waiting : ∀ j r msgId sender text, s.loc j = .addEntry r msgId sender text →
    Waits s.shared r msgId sender
  apart : ∀ j j' r r' msgId sender sender' text text', s.loc j = .addEntry r msgId sender text →
    s.loc j' = .addEntry r' msgId sender' text' → j = j'
  fresh : ∀ j r msgId sender text, s.loc j = .addEntry r msgId sender text →
    r ∈ s.shared.2.roomList →
    (∀ row ∈ s.shared.1.messages.rows, row.id = msgId → row.deleted = false) ∧ ¬ Deleting s msgId
  erased : ∀ row ∈ s.shared.1.messages.rows, row.deleted = true → row.text = "[deleted]".toList
  deleting : ∀ msgId, Deleting s msgId → 0 < msgId ∧
    (∃ row ∈ s.shared.1.messages.rows, row.id = msgId) ∧ GoneFromRooms msgId s.shared.2

/-- A section of one handler, with the others where they were. -/
structure Moves (s : MessageThreads ι) (i : ι) (env : Env) (op : Option HistoryOp)
    (s' : MessageThreads ι) (phase : MessagePhase)
    (next : (Database × Registry) × MessagePhase) : Prop where
  others : ∀ j, j ≠ i → s'.loc j = s.loc j
  before : s.loc i = phase
  after : s'.loc i = next.2
  shared : s'.shared = next.1
  acts : MessageSection env s.shared phase op next

variable {phase : MessagePhase} {next : (Database × Registry) × MessagePhase}

theorem Orderly.row_of_slot (hs : Orderly s) {r : RoomPtr} {k : ℕ}
    (hk : 0 < ((s.shared.2.rooms r).history.slots k).id) :
    ∃ row ∈ s.shared.1.messages.rows, row.id = ((s.shared.2.rooms r).history.slots k).id ∧
      row.room = (s.shared.2.rooms r).roomName := by
  obtain ⟨row, hrow, hid, hroom, -⟩ := (hs.backed r).row k (ne_zeroMessage_of_pos hk)
  exact ⟨row, hrow, hid, hroom⟩

theorem Orderly.slot_unique (hs : Orderly s) {r r' : RoomPtr} {k k' : ℕ}
    (hr : r ∈ s.shared.2.roomList) (hr' : r' ∈ s.shared.2.roomList)
    (hk : 0 < ((s.shared.2.rooms r).history.slots k).id)
    (hid : ((s.shared.2.rooms r').history.slots k').id =
      ((s.shared.2.rooms r).history.slots k).id) : r' = r ∧ k' = k := by
  obtain ⟨row, hrow, hrid, hroom⟩ := hs.row_of_slot hk
  obtain ⟨row', hrow', hrid', hroom'⟩ := hs.row_of_slot (hid ▸ hk)
  obtain rfl := Messages.row_unique hrow' hrow (hrid'.trans (hid.trans hrid.symm))
  obtain rfl := hs.names r' hr' r hr (hroom'.symm.trans hroom)
  exact ⟨rfl, (hs.backed r').slot k' k (ne_zeroMessage_of_pos (hid ▸ hk))
    (ne_zeroMessage_of_pos hk) hid⟩

/-- A message that is being or has been deleted in the table stays deleted in the rooms. -/
theorem goneFromRooms_step (hs : Orderly s) (hm : Moves s i env op s' phase next)
    (hc : NoReload s (i, env, op)) (hpos : 0 < msgId)
    (hmark : Deleting s msgId ∨ ∃ row ∈ s.shared.1.messages.rows, row.id = msgId ∧
      row.deleted = true)
    (hgone : GoneFromRooms msgId s.shared.2) : GoneFromRooms msgId s'.shared.2 := by
  obtain ⟨hothers, hbefore, hafter, hshared, hacts⟩ := hm
  rw [hshared]
  cases hacts with
  | @create n c r reg made =>
    obtain ⟨-, hloaded⟩ := hc n c r reg hbefore rfl made
    obtain ⟨r₀, hr₀, hfree, -, -, rfl⟩ := createRoom_ok made
    obtain rfl := Option.some.inj hr₀
    intro r' hr' k hk
    rcases List.mem_append.mp hr' with hold | hnew
    · have hne : r' ≠ r := fun h => hfree (h ▸ hold)
      simp only [Registry.setRoom_rooms, Function.update_of_ne hne] at hk ⊢
      exact hgone r' hold k hk
    · obtain rfl := List.mem_singleton.mp hnew
      simp only [Registry.setRoom_rooms, Function.update_self] at hk ⊢
      obtain ⟨row, hrow, -, hload, hslot⟩ := slot_newRoom (k := k) (hk.symm ▸ hpos)
      -- the row is deleted, or loaded as if by the handler that is to delete it
      have hdel : ((newRoom env n c s.shared.2 s.shared.1).history.slots k).deleted = true := by
        rcases hmark with hdeleting | ⟨row', hrow', hid', hdel⟩
        · exact hloaded _ hload (hk.symm ▸ hdeleting)
        · rw [hslot] at hk ⊢
          obtain rfl := Messages.row_unique hrow hrow' (Eq.trans hk hid'.symm)
          exact hdel
      refine ⟨hdel, ?_⟩
      rw [hslot] at hdel ⊢
      exact (congrArg (strncpy maxTextLen) (hs.erased row hrow hdel)).trans deleted_text
  | close live => exact fun r' hr' => hgone r' (List.mem_of_mem_erase hr')
  | save live saved => exact hgone
  | @edit r msgId' requester newText k live pos id undeleted =>
    intro r' hr' k' hk'
    rw [slots_modifyRoom_set] at hk' ⊢
    split_ifs at hk' ⊢ with hslot
    · exact absurd (hgone r live k hk').1 (by simp [undeleted])
    · exact hgone r' hr' k' hk'
  | @delete r msgId' requester isAdmin k live pos id undeleted =>
    intro r' hr' k' hk'
    rw [slots_modifyRoom_set] at hk' ⊢
    split_ifs at hk' ⊢ with hslot
    · exact ⟨rfl, deleted_text⟩
    · exact hgone r' hr' k' hk'
  | @addEntry r msgId' sender text op =>
    intro r' hr' k' hk'
    obtain ⟨hlist, -⟩ := enterHistory_keeps s.shared.2 r r' env msgId' sender text
    rw [hlist] at hr'
    rw [slots_enterHistory] at hk' ⊢
    split_ifs at hk' ⊢ with hslot
    · -- a worker that enters a live room carries a message that no one could delete yet
      obtain ⟨rfl, -⟩ := hslot
      have hid : msgId' = msgId := hk'
      subst hid
      obtain ⟨hlive, hdeleting⟩ := hs.fresh i r' msgId' sender text hbefore hr'
      rcases hmark with h | ⟨row, hrow, hid, hdel⟩
      · exact absurd h hdeleting
      · exact absurd hdel (by simp [hlive row hrow hid])
    · exact hgone r' hr' k' hk'
  | editRow => exact hgone
  | deleteRow => exact hgone

/-! ## The invariant -/

theorem backed_step (hs : Orderly s) (hm : Moves s i env op s' phase next) :
    (archiveOf s'.shared.2 s'.shared.1).Backed := by
  obtain ⟨hothers, hbefore, hafter, hshared, hacts⟩ := hm
  rw [hshared]
  cases hacts with
  | @create n c r reg made =>
    obtain ⟨-, hlen, hshelves⟩ := shelvesOf_of_created made
    rw [archiveOf, hshelves]
    exact hs.backed.update (.refl _) (backed_newRoom hlen)
  | close live => exact hs.backed
  | @save r sender text msgId db live saved =>
    have hkeeps :=
      dbSaveMessage_keeps env (s.shared.2.rooms r).roomName sender text s.shared.1
    rw [saved] at hkeeps
    exact fun r => (hs.backed r).mono hkeeps
  | @edit r msgId' requester newText k live pos id undeleted =>
    rw [archiveOf, Registry.modifyRoom_eq, shelvesOf_setRoom]
    exact hs.backed.update (.refl _) ((hs.backed r).set (id ▸ pos) rfl rfl)
  | @delete r msgId' requester isAdmin k live pos id undeleted =>
    rw [archiveOf, Registry.modifyRoom_eq, shelvesOf_setRoom]
    exact hs.backed.update (.refl _) ((hs.backed r).set (id ▸ pos) rfl rfl)
  | @addEntry r msgId' sender text op =>
    obtain ⟨⟨row, hrow, hid, hroom, hsender⟩, hnew⟩ :=
      hs.waiting i r msgId' sender text hbefore
    rw [enterHistory]
    split_ifs with hcap
    · exact hs.backed
    · rw [archiveOf, Registry.modifyRoom_eq, shelvesOf_setRoom]
      exact hs.backed.update (.refl _)
        ((hs.backed r).write _ ⟨row, hrow, hid, hroom, hsender⟩ fun i _ => hnew i)
  | editRow => exact fun r => (hs.backed r).mono dbEditMessage_keeps
  | deleteRow => exact fun r => (hs.backed r).mono dbDeleteMessage_keeps

theorem NamesApart.of_kept {reg reg' : Registry} (h : NamesApart reg)
    (hlist : ∀ r ∈ reg'.roomList, r ∈ reg.roomList)
    (hname : ∀ r, (reg'.rooms r).roomName = (reg.rooms r).roomName) : NamesApart reg' :=
  fun r hr r' hr' heq => h r (hlist r hr) r' (hlist r' hr') ((hname r).symm.trans
    (heq.trans (hname r')))

theorem NamesApart.create {reg reg' : Registry} {db : Database} {n : Text} {c : ClientPtr}
    {r : RoomPtr} (h : NamesApart reg)
    (made : createRoom env (some n) (some c) db reg = (.ok, some r, reg')) : NamesApart reg' := by
  obtain ⟨r₀, hr₀, hfree, hnames, hlen, rfl⟩ := createRoom_ok made
  obtain rfl := Option.some.inj hr₀
  have hn : strncpy maxRoomNameLen n = n := by
    refine strncpy_eq_self ?_
    simp only [badLength, decide_eq_false_iff_not, not_or, not_le] at hlen
    exact hlen.2
  intro r₁ h₁ r₂ h₂ heq
  rcases List.mem_append.mp h₁ with hold₁ | hnew₁ <;>
    rcases List.mem_append.mp h₂ with hold₂ | hnew₂
  · simp only [Registry.setRoom_rooms, Function.update_of_ne (ne_of_mem_of_not_mem hold₁ hfree),
      Function.update_of_ne (ne_of_mem_of_not_mem hold₂ hfree)] at heq
    exact h r₁ hold₁ r₂ hold₂ heq
  · obtain rfl := List.mem_singleton.mp hnew₂
    simp only [Registry.setRoom_rooms, Function.update_of_ne (ne_of_mem_of_not_mem hold₁ hfree),
      Function.update_self, newRoom, hn] at heq
    exact absurd heq (hnames r₁ hold₁)
  · obtain rfl := List.mem_singleton.mp hnew₁
    simp only [Registry.setRoom_rooms, Function.update_of_ne (ne_of_mem_of_not_mem hold₂ hfree),
      Function.update_self, newRoom, hn] at heq
    exact absurd heq.symm (hnames r₂ hold₂)
  · exact (List.mem_singleton.mp hnew₁).trans (List.mem_singleton.mp hnew₂).symm

theorem names_step (hs : Orderly s) (hm : Moves s i env op s' phase next) :
    NamesApart s'.shared.2 := by
  obtain ⟨hothers, hbefore, hafter, hshared, hacts⟩ := hm
  rw [hshared]
  cases hacts with
  | create made => exact hs.names.create made
  | close live => exact hs.names.of_kept (fun r => List.mem_of_mem_erase) fun _ => rfl
  | save live saved => exact hs.names
  | edit live pos id undeleted =>
    exact hs.names.of_kept (fun _ hr => hr) fun _ => roomName_modifyRoom_set ..
  | delete live pos id undeleted =>
    exact hs.names.of_kept (fun _ hr => hr) fun _ => roomName_modifyRoom_set ..
  | addEntry =>
    refine hs.names.of_kept (fun r hr => ?_) fun r => (enterHistory_keeps _ _ r _ _ _ _).2
    rwa [(enterHistory_keeps _ _ r _ _ _ _).1] at hr
  | editRow => exact hs.names
  | deleteRow => exact hs.names

theorem Moves.loc_other (hm : Moves s i env op s' phase next) {j : ι} {phase' : MessagePhase}
    (hj : s'.loc j = phase') (hne : next.2 ≠ phase') : j ≠ i ∧ s.loc j = phase' := by
  have hji : j ≠ i := by
    rintro rfl
    exact hne (hm.after.symm.trans hj)
  exact ⟨hji, (hm.others j hji).symm.trans hj⟩

theorem MessageSection.keeps {s : Database × Registry} (h : MessageSection env s phase op next) :
    s.1.messages.Keeps next.1.1.messages := by
  cases h with
  | @save r sender text msgId db live saved =>
    have hkeeps :=
      dbSaveMessage_keeps env (s.2.rooms r).roomName sender text s.1
    rwa [saved] at hkeeps
  | editRow => exact dbEditMessage_keeps
  | deleteRow => exact dbDeleteMessage_keeps
  | _ => exact .refl _

theorem Waits.of_kept {s s' : Database × Registry} {r : RoomPtr} {sender : Text}
    (h : Waits s r msgId sender) (ht : s.1.messages.Keeps s'.1.messages)
    (hname : (s'.2.rooms r).roomName = (s.2.rooms r).roomName)
    (hslots : ∀ k, ((s'.2.rooms r).history.slots k).id ≠ msgId) : Waits s' r msgId sender := by
  obtain ⟨row, hrow, hid, hroom, hsender⟩ := h.row
  obtain ⟨row', hrow', hid', hroom', hsender'⟩ := ht row hrow
  refine ⟨⟨row', hrow', hid'.trans hid, hroom'.trans (hroom.trans hname.symm), ?_⟩, hslots⟩
  rw [← hsender, MessageRow.load, MessageRow.load, hsender']

theorem saved_id {n sender text : Text} {db db' : Database}
    (hsql : env.sql .saveMessage = .done)
    (saved : dbSaveMessage env n sender text db = (msgId, db')) :
    db.messages.seq < msgId ∧ 0 < msgId ∧
      db'.messages.rows = db.messages.rows ++ [⟨msgId, n, sender, text, env.now, false, 0⟩] := by
  have hdone := dbSaveMessage_done n sender text db hsql
  rw [saved] at hdone
  exact ⟨hdone.1, lt_of_le_of_lt db.messages.seq_nonneg hdone.1, hdone.2⟩

theorem waiting_step (hs : Orderly s) (hm : Moves s i env op s' phase next)
    (hc : NoReload s (i, env, op)) (hsql : env.sql .saveMessage = .done) :
    ∀ j r msgId sender text, s'.loc j = .addEntry r msgId sender text →
      Waits s'.shared r msgId sender := by
  intro j r₀ msgId sender₀ text₀ hj
  have hwaits (hj : s.loc j = .addEntry r₀ msgId sender₀ text₀) :=
    hs.waiting j r₀ msgId sender₀ text₀ hj
  have hkeeps := hm.acts.keeps
  have hbefore := hm.before
  have hacts := hm.acts
  rw [hm.shared]
  cases hacts with
  | @create n c r reg made =>
    obtain ⟨-, hj⟩ := hm.loc_other hj (by simp)
    obtain ⟨hfree, -⟩ := hc n c r reg hbefore rfl made
    have hne : r₀ ≠ r := by
      rintro rfl
      exact hfree j msgId sender₀ text₀ hj
    obtain ⟨r₁, hr₁, -, -, -, rfl⟩ := createRoom_ok made
    obtain rfl := Option.some.inj hr₁
    refine (hwaits hj).of_kept hkeeps ?_ ?_
    · simp only [Registry.setRoom_rooms, Function.update_of_ne hne]
    · simp only [Registry.setRoom_rooms, Function.update_of_ne hne]
      exact (hwaits hj).absent
  | close live =>
    obtain ⟨-, hj⟩ := hm.loc_other hj (by simp)
    exact (hwaits hj).of_kept hkeeps rfl (hwaits hj).absent
  | @save r sender text msgId' db live saved =>
    obtain ⟨hseq, hpos, hrows⟩ := saved_id hsql saved
    rcases eq_or_ne j i with rfl | hji
    · have heq := hm.after.symm.trans hj
      rw [if_neg (not_le.mpr hpos)] at heq
      obtain ⟨rfl, rfl, rfl, rfl⟩ := MessagePhase.addEntry.inj heq
      have hnew : ⟨msgId', (s.shared.2.rooms r).roomName, sender, text, env.now, false, 0⟩ ∈
          db.messages.rows := by
        rw [hrows]
        exact List.mem_append_right _ (List.mem_singleton_self _)
      refine ⟨⟨_, hnew, rfl, rfl, rfl⟩, fun k hk => ?_⟩
      · exact absurd ((hs.backed r).id_le k) (not_le.mpr (hk.symm ▸ hseq))
    · have hj := (hm.others j hji).symm.trans hj
      exact (hwaits hj).of_kept hkeeps rfl (hwaits hj).absent
  | edit live pos id undeleted =>
    obtain ⟨-, hj⟩ := hm.loc_other hj (by simp)
    refine (hwaits hj).of_kept hkeeps (roomName_modifyRoom_set ..) fun k => ?_
    rw [slots_modifyRoom_set]
    split_ifs with hslot
    · exact hslot.1 ▸ (hwaits hj).absent _
    · exact (hwaits hj).absent k
  | delete live pos id undeleted =>
    obtain ⟨-, hj⟩ := hm.loc_other hj (by simp)
    refine (hwaits hj).of_kept hkeeps (roomName_modifyRoom_set ..) fun k => ?_
    rw [slots_modifyRoom_set]
    split_ifs with hslot
    · exact hslot.1 ▸ (hwaits hj).absent _
    · exact (hwaits hj).absent k
  | @addEntry r msgId' sender text op =>
    obtain ⟨hji, hj⟩ := hm.loc_other hj (by simp)
    refine (hwaits hj).of_kept hkeeps (enterHistory_keeps ..).2 fun k => ?_
    rw [slots_enterHistory]
    split_ifs with hslot
    · rintro rfl
      exact hji (hs.apart j i r₀ r _ sender₀ sender text₀ text hj hbefore)
    · exact (hwaits hj).absent k
  | editRow =>
    obtain ⟨-, hj⟩ := hm.loc_other hj (by simp)
    exact (hwaits hj).of_kept hkeeps rfl (hwaits hj).absent
  | deleteRow =>
    obtain ⟨-, hj⟩ := hm.loc_other hj (by simp)
    exact (hwaits hj).of_kept hkeeps rfl (hwaits hj).absent

/-- A worker about to enter a room was so before, or has just saved its message. -/
theorem Moves.addEntry_cases (hm : Moves s i env op s' phase next)
    (hsql : env.sql .saveMessage = .done) {j : ι} {r : RoomPtr} {sender text : Text}
    (hj : s'.loc j = .addEntry r msgId sender text) :
    (j ≠ i ∧ s.loc j = .addEntry r msgId sender text) ∨
      (j = i ∧ s.shared.1.messages.seq < msgId ∧ s'.shared.2 = s.shared.2 ∧
        ∃ row, row.id = msgId ∧ row.deleted = false ∧
          s'.shared.1.messages.rows = s.shared.1.messages.rows ++ [row]) := by
  rcases eq_or_ne j i with rfl | hji
  · have heq := hm.after.symm.trans hj
    have hacts := hm.acts
    rw [hm.shared]
    cases hacts with
    | save live saved =>
      obtain ⟨hseq, hpos, hrows⟩ := saved_id hsql saved
      rw [if_neg (not_le.mpr hpos)] at heq
      obtain ⟨-, rfl, -, -⟩ := MessagePhase.addEntry.inj heq
      exact .inr ⟨rfl, hseq, rfl, _, rfl, rfl, hrows⟩
    | _ => cases heq
  · exact .inl ⟨hji, (hm.others j hji).symm.trans hj⟩

theorem Orderly.waiting_le (hs : Orderly s) {j : ι} {r : RoomPtr} {sender text : Text}
    (hj : s.loc j = .addEntry r msgId sender text) : msgId ≤ s.shared.1.messages.seq := by
  obtain ⟨row, hrow, rfl, -⟩ := (hs.waiting j r msgId sender text hj).row
  exact s.shared.1.messages.ids row hrow

theorem Orderly.deleting_le (hs : Orderly s) (h : Deleting s msgId) :
    msgId ≤ s.shared.1.messages.seq := by
  obtain ⟨-, ⟨row, hrow, rfl⟩, -⟩ := hs.deleting msgId h
  exact s.shared.1.messages.ids row hrow

theorem apart_step (hs : Orderly s) (hm : Moves s i env op s' phase next)
    (hsql : env.sql .saveMessage = .done) :
    ∀ j j' r r' msgId sender sender' text text', s'.loc j = .addEntry r msgId sender text →
      s'.loc j' = .addEntry r' msgId sender' text' → j = j' := by
  intro j j' r r' msgId sender sender' text text' hj hj'
  rcases hm.addEntry_cases hsql hj with ⟨-, hold⟩ | ⟨rfl, hseq, -⟩ <;>
    rcases hm.addEntry_cases hsql hj' with ⟨-, hold'⟩ | ⟨rfl, hseq', -⟩
  · exact hs.apart j j' r r' msgId sender sender' text text' hold hold'
  · exact absurd (hs.waiting_le hold) (not_le.mpr hseq')
  · exact absurd (hs.waiting_le hold') (not_le.mpr hseq)
  · rfl

theorem Moves.deleting_cases (hm : Moves s i env op s' phase next) (h : Deleting s' msgId) :
    Deleting s msgId ∨ ∃ r k, r ∈ s.shared.2.roomList ∧ 0 < msgId ∧
      ((s.shared.2.rooms r).history.slots k).id = msgId ∧ s'.shared.1 = s.shared.1 ∧
      s'.shared.2 = s.shared.2.modifyRoom r fun room => { room with
        history := room.history.set k (deleteEntry (room.history.slots k)) } := by
  obtain ⟨j, hj⟩ := h
  rcases eq_or_ne j i with rfl | hji
  · have heq := hm.after.symm.trans hj
    have hacts := hm.acts
    rw [hm.shared]
    cases hacts with
    | @delete r msgId' requester isAdmin k live pos id undeleted =>
      obtain rfl := MessagePhase.deleteRow.inj heq
      exact .inr ⟨r, k, live, pos, id, rfl, rfl⟩
    | _ => cases heq
  · exact .inl ⟨j, (hm.others j hji).symm.trans hj⟩

theorem erased_step (hs : Orderly s) (hm : Moves s i env op s' phase next)
    (hsql : env.sql .saveMessage = .done) : ∀ row ∈ s'.shared.1.messages.rows,
      row.deleted = true → row.text = "[deleted]".toList := by
  intro row hrow hdel
  have hacts := hm.acts
  rw [hm.shared] at hrow
  cases hacts with
  | save live saved =>
    rw [(saved_id hsql saved).2.2] at hrow
    rcases List.mem_append.mp hrow with hrow | hrow
    · exact hs.erased row hrow hdel
    · obtain rfl := List.mem_singleton.mp hrow
      cases hdel
  | editRow =>
    rcases mem_dbEditMessage hrow with hrow | ⟨old, -, -, hlive, -, rfl⟩
    · exact hs.erased row hrow hdel
    · exact absurd hdel (by simp [hlive])
  | deleteRow =>
    rcases mem_dbDeleteMessage hrow with hrow | ⟨old, -, -, -, -, rfl⟩
    · exact hs.erased row hrow hdel
    · rfl
  | _ => exact hs.erased row hrow hdel

theorem deleting_step (hs : Orderly s) (hm : Moves s i env op s' phase next)
    (hc : NoReload s (i, env, op)) : ∀ msgId, Deleting s' msgId → 0 < msgId ∧
      (∃ row ∈ s'.shared.1.messages.rows, row.id = msgId) ∧ GoneFromRooms msgId s'.shared.2 := by
  intro msgId hdeleting
  have hkeeps := hm.acts.keeps
  rw [← hm.shared] at hkeeps
  rcases hm.deleting_cases hdeleting with hold | ⟨r, k, live, pos, hk, hrows, hreg⟩
  · obtain ⟨hpos, ⟨row, hrow, hid⟩, hgone⟩ := hs.deleting msgId hold
    obtain ⟨row', hrow', hid', -⟩ := hkeeps row hrow
    exact ⟨hpos, ⟨row', hrow', hid'.trans hid⟩,
      goneFromRooms_step hs hm hc hpos (.inl hold) hgone⟩
  · obtain ⟨row, hrow, hid, -⟩ := hs.row_of_slot (hk.symm ▸ pos)
    refine ⟨pos, ⟨row, hrows ▸ hrow, hid.trans hk⟩, fun r' hr' k' hk' => ?_⟩
    rw [hreg] at hr' hk' ⊢
    rw [slots_modifyRoom_set] at hk' ⊢
    split_ifs at hk' ⊢ with hslot
    · exact ⟨rfl, deleted_text⟩
    · exact absurd (hs.slot_unique live hr' (hk.symm ▸ pos) (hk'.trans hk.symm)) hslot

theorem Moves.live (hm : Moves s i env op s' phase next) (hc : NoReload s (i, env, op)) {j : ι}
    {r : RoomPtr} {sender text : Text} (hj : s.loc j = .addEntry r msgId sender text)
    (hr : r ∈ s'.shared.2.roomList) : r ∈ s.shared.2.roomList := by
  have hbefore := hm.before
  have hacts := hm.acts
  rw [hm.shared] at hr
  cases hacts with
  | @create n c r' reg made =>
    obtain ⟨hfree, -⟩ := hc n c r' reg hbefore rfl made
    obtain ⟨r₀, hr₀, -, -, -, rfl⟩ := createRoom_ok made
    obtain rfl := Option.some.inj hr₀
    rcases List.mem_append.mp hr with hold | hnew
    · exact hold
    · obtain rfl := List.mem_singleton.mp hnew
      exact absurd hj (hfree j msgId sender text)
  | close live => exact List.mem_of_mem_erase hr
  | addEntry => rwa [(enterHistory_keeps _ _ r _ _ _ _).1] at hr
  | _ => exact hr

/-- A row of a message that no one can delete yet is not deleted. -/
theorem fresh_rows_step (hm : Moves s i env op s' phase next) (hsql : env.sql .saveMessage = .done)
    (hlive : ∀ row ∈ s.shared.1.messages.rows, row.id = msgId → row.deleted = false)
    (hdeleting : ¬ Deleting s msgId) :
    ∀ row ∈ s'.shared.1.messages.rows, row.id = msgId → row.deleted = false := by
  intro row hrow hid
  have hbefore := hm.before
  have hacts := hm.acts
  rw [hm.shared] at hrow
  cases hacts with
  | save live saved =>
    rw [(saved_id hsql saved).2.2] at hrow
    rcases List.mem_append.mp hrow with hrow | hrow
    · exact hlive row hrow hid
    · rw [List.mem_singleton.mp hrow]
  | editRow =>
    rcases mem_dbEditMessage hrow with hrow | ⟨old, -, -, hold, -, rfl⟩
    · exact hlive row hrow hid
    · exact hold
  | deleteRow =>
    rcases mem_dbDeleteMessage hrow with hrow | ⟨old, -, hold, -, -, rfl⟩
    · exact hlive row hrow hid
    · obtain rfl : old.id = msgId := hid
      exact absurd ⟨i, hold ▸ hbefore⟩ hdeleting
  | _ => exact hlive row hrow hid

theorem fresh_step (hs : Orderly s) (hm : Moves s i env op s' phase next)
    (hc : NoReload s (i, env, op)) (hsql : env.sql .saveMessage = .done) :
    ∀ j r msgId sender text, s'.loc j = .addEntry r msgId sender text →
      r ∈ s'.shared.2.roomList →
      (∀ row ∈ s'.shared.1.messages.rows, row.id = msgId → row.deleted = false) ∧
        ¬ Deleting s' msgId := by
  intro j r msgId sender text hj hr
  rcases hm.addEntry_cases hsql hj with ⟨-, hold⟩ | ⟨rfl, hseq, -, new, -, hlive, hrows⟩
  · have live := hm.live hc hold hr
    obtain ⟨hlive, hdeleting⟩ := hs.fresh j r msgId sender text hold live
    refine ⟨fresh_rows_step hm hsql hlive hdeleting, fun hdeleting' => ?_⟩
    rcases hm.deleting_cases hdeleting' with h | ⟨r', k, live', pos, hk, -⟩
    · exact hdeleting h
    · -- the message to be deleted would be stored in the room it waits for
      have hwaits := hs.waiting j r msgId sender text hold
      obtain ⟨row, hrow, hid, hroom, -⟩ := hwaits.row
      obtain ⟨row', hrow', hid', hroom'⟩ := hs.row_of_slot (hk.symm ▸ pos)
      obtain rfl := Messages.row_unique hrow' hrow ((hid'.trans hk).trans hid.symm)
      obtain rfl := hs.names r' live' r live (hroom'.symm.trans hroom)
      exact hwaits.absent k hk
  · refine ⟨fun row hrow hid => ?_, fun hdeleting' => ?_⟩
    · rw [hrows] at hrow
      rcases List.mem_append.mp hrow with hrow | hrow
      · have hle := s.shared.1.messages.ids row hrow
        exact absurd (hid ▸ hle) (not_le.mpr hseq)
      · rw [List.mem_singleton.mp hrow]
        exact hlive
    · rcases hm.deleting_cases hdeleting' with h | ⟨r', k, -, -, hk, -⟩
      · exact absurd (hs.deleting_le h) (not_le.mpr hseq)
      · exact absurd (hk ▸ (hs.backed r').id_le k) (not_le.mpr hseq)

theorem orderly_step (hs : Orderly s) (hm : Moves s i env op s' phase next)
    (hc : NoReload s (i, env, op)) (hsql : env.sql .saveMessage = .done) : Orderly s' where
  backed := backed_step hs hm
  names := names_step hs hm
  waiting := waiting_step hs hm hc hsql
  apart := apart_step hs hm hsql
  fresh := fresh_step hs hm hc hsql
  erased := erased_step hs hm hsql
  deleting := deleting_step hs hm hc

theorem GoneFromTable.step (hm : Moves s i env op s' phase next)
    (hsql : ∀ stmt, env.sql stmt = .done) (h : GoneFromTable msgId s.shared.1.messages) :
    GoneFromTable msgId s'.shared.1.messages := by
  obtain ⟨row, hrow, hid, hdel, htext⟩ := h
  refine ⟨row, ?_, hid, hdel, htext⟩
  have hacts := hm.acts
  rw [hm.shared]
  cases hacts with
  | save live saved =>
    rw [(saved_id (hsql _) saved).2.2]
    exact List.mem_append_left _ hrow
  | @editRow msgId' newText op =>
    by_cases hpos : 0 < msgId'
    · rw [rows_dbEditMessage (hsql _) hpos]
      exact List.mem_map.mpr ⟨row, hrow, if_neg (by simp [hdel])⟩
    · rwa [dbEditMessage, if_pos (not_lt.mp hpos)]
  | @deleteRow msgId' op =>
    by_cases hpos : 0 < msgId'
    · rw [rows_dbDeleteMessage (hsql _) hpos]
      exact List.mem_map.mpr ⟨row, hrow, if_neg (by simp [hdel])⟩
    · rwa [dbDeleteMessage, if_pos (not_lt.mp hpos)]
  | _ => exact hrow

/-! ## Every interleaving -/

/-- A message is deleted in the table and wherever a live room stores it. -/
structure Gone (msgId : ℤ) (s : Database × Registry) : Prop where
  table : GoneFromTable msgId s.1.messages
  rooms : GoneFromRooms msgId s.2

variable [DecidableEq ι]

theorem race_moves (s : MessageThreads ι) (i : ι) (env : Env) (op : Option HistoryOp) :
    messageRace ι s (i, env, op) = s ∨
      ∃ phase next, Moves s i env op (messageRace ι s (i, env, op)) phase next := by
  have hothers (j : ι) (hj : j ≠ i) : (messageRace ι s (i, env, op)).loc j = s.loc j :=
    Threads.step_loc_of_ne hj
  rcases messageRace_cases s i env op with
    ⟨hbefore, hafter, hshared⟩ | ⟨phase, next, hbefore, hafter, hshared, hacts⟩
  · refine .inl ?_
    have hloc : (messageRace ι s (i, env, op)).loc = s.loc := by
      funext j
      rcases eq_or_ne j i with rfl | hne
      · rw [hafter, hbefore]
      · exact hothers j hne
    generalize messageRace ι s (i, env, op) = s' at hshared hloc
    cases s
    cases s'
    simp only at hshared hloc
    rw [hshared, hloc]
  · exact .inr ⟨phase, next, hothers, hbefore, hafter, hshared, hacts⟩

omit [DecidableEq ι] in
theorem orderly_start (cfg : Config) (db : Database)
    (herased : ∀ row ∈ db.messages.rows, row.deleted = true → row.text = "[deleted]".toList) :
    Orderly (messageStart (ι := ι) (db, registryInit cfg)) where
  backed := backed_registryInit cfg db
  names := fun _ hr => by cases hr
  waiting := fun _ _ _ _ _ h => by cases h
  apart := fun _ _ _ _ _ _ _ _ _ h => by cases h
  fresh := fun _ _ _ _ _ h => by cases h
  erased := herased
  deleting := fun _ ⟨_, h⟩ => by cases h

theorem orderly_race {s : MessageThreads ι} {input : ι × Env × Option HistoryOp}
    (hs : Orderly s) (hc : NoReload s input ∧ ∀ stmt, input.2.1.sql stmt = .done) :
    Orderly (messageRace ι s input) := by
  obtain ⟨i, env, op⟩ := input
  rcases race_moves s i env op with hstill | ⟨phase, next, hm⟩
  · rwa [hstill]
  · exact orderly_step hs hm hc.1 (hc.2 _)

theorem gone_race {s : MessageThreads ι} {input : ι × Env × Option HistoryOp} (hs : Orderly s)
    (hc : NoReload s input ∧ ∀ stmt, input.2.1.sql stmt = .done) (hpos : 0 < msgId)
    (h : Gone msgId s.shared) : Gone msgId (messageRace ι s input).shared := by
  obtain ⟨i, env, op⟩ := input
  rcases race_moves s i env op with hstill | ⟨phase, next, hm⟩
  · rwa [hstill]
  · obtain ⟨row, hrow, hid, hdel, htext⟩ := h.table
    exact ⟨h.table.step hm hc.2, goneFromRooms_step hs hm hc.1 hpos
      (.inr ⟨row, hrow, hid, hdel⟩) h.rooms⟩

/-- The second section of a DELETE leaves the message deleted in both places. -/
theorem gone_deleted {s : MessageThreads ι} {i : ι} {env : Env} {op : Option HistoryOp}
    (hs : Orderly s) (hsql : env.sql .deleteMessage = .done) (hi : s.loc i = .deleteRow msgId) :
    Gone msgId (messageRace ι s (i, env, op)).shared := by
  obtain ⟨hpos, ⟨row, hrow, rfl⟩, hgone⟩ := hs.deleting msgId ⟨i, hi⟩
  have hshared : (messageRace ι s (i, env, op)).shared =
      (dbDeleteMessage env row.id s.shared.1, s.shared.2) := by
    rw [Threads.step_shared, hi]
    rfl
  rw [hshared]
  have hwritten := mem_deleted hsql hpos hrow
  refine ⟨?_, hgone⟩
  cases hdel : row.deleted with
  | true =>
    rw [if_pos hdel] at hwritten
    exact ⟨_, hwritten, rfl, hdel, hs.erased row hrow hdel⟩
  | false =>
    rw [if_neg (by simp [hdel])] at hwritten
    exact ⟨_, hwritten, rfl, rfl, rfl⟩

/--
However the sections of MSG, EDIT and DELETE and of the creation and deletion
of rooms interleave, once a DELETE is through its message stays deleted in the
table and in every live room, provided that no room is created that loads the
message while the DELETE is between its sections, or gets the address of a room
that a worker is about to enter.
-/
theorem deletion_final (cfg : Config) (db : Database)
    (herased : ∀ row ∈ db.messages.rows, row.deleted = true → row.text = "[deleted]".toList)
    (inputs : List (ι × Env × Option HistoryOp))
    (hsql : ∀ input ∈ inputs, ∀ stmt, input.2.1.sql stmt = .done)
    (hc : Along (messageRace ι) NoReload (messageStart (db, registryInit cfg)) inputs) :
    let reached := run (messageRace ι) (messageStart (db, registryInit cfg))
    ∀ pre i input post msgId, inputs = pre ++ (i, input) :: post →
      (reached pre).loc i = .deleteRow msgId →
      ∀ fs, fs <+: post → Gone msgId (reached (pre ++ (i, input) :: fs)).shared := by
  rintro reached pre i ⟨env, op⟩ post msgId rfl hi fs ⟨rest, rfl⟩
  have hboth : Along (messageRace ι)
      (fun s input => NoReload s input ∧ ∀ stmt, input.2.1.sql stmt = .done)
      (messageStart (db, registryInit cfg)) (pre ++ (i, env, op) :: (fs ++ rest)) := by
    refine along_iff_forall.mpr fun pre' e hpre => ⟨along_iff_forall.mp hc pre' e hpre, ?_⟩
    exact hsql e (hpre.subset (List.mem_append_right _ (List.mem_singleton_self e)))
  obtain ⟨hpre, hdelete, hpost⟩ := along_append.mp hboth
  have hs : Orderly (reached pre) :=
    run_invariant_along (fun s input hs hc => orderly_race hs hc) (orderly_start cfg db herased)
      hpre
  obtain ⟨hpos, -, -⟩ := hs.deleting msgId ⟨i, hi⟩
  have hdeleted : Gone msgId (messageRace ι (reached pre) (i, env, op)).shared :=
    gone_deleted hs (hdelete.2 _) hi
  have hall : Orderly (reached (pre ++ (i, env, op) :: fs)) ∧
      Gone msgId (reached (pre ++ (i, env, op) :: fs)).shared := by
    simp only [reached, run_append, run_cons]
    refine run_invariant_along (I := fun s : MessageThreads ι => Orderly s ∧ Gone msgId s.shared)
      (fun s input h hc => ⟨orderly_race h.1 hc, gone_race h.1 hc hpos h.2⟩)
      ⟨orderly_race hs hdelete, hdeleted⟩ (along_append.mp hpost).1
  exact hall.2

omit [DecidableEq ι] in
theorem noReload_of_idle {s : MessageThreads ι} (hs : ∀ j, s.loc j = .idle)
    (input : ι × Env × Option HistoryOp) : NoReload s input := by
  refine fun n c r reg _ _ _ => ⟨fun j msgId sender text hj => ?_, fun m _ ⟨j, hj⟩ => ?_⟩
  · rw [hs j] at hj
    cases hj
  · rw [hs j] at hj
    cases hj

omit [DecidableEq ι] in
theorem noReload_of_no_create {s : MessageThreads ι} {input : ι × Env × Option HistoryOp}
    (h : ∀ n c, input.2.2 ≠ some (.create n c)) : NoReload s input :=
  fun n c _ _ _ hop _ => absurd hop (h n c)

end Race

/-! ## A room created again -/

/-- A section of the handler that deletes a message, or of the others. -/
def deleterSection (deleter : Bool) (roomMem : RoomPtr) (op : Option HistoryOp) :
    Bool × Env × Option HistoryOp :=
  (deleter, .calm roomMem 0 [], op)

/-- Alice's room, her message, and the first section of its deletion. -/
def deletionStarted : List (Bool × Env × Option HistoryOp) :=
  [deleterSection false 0 (some (.create "lounge".toList 0)),
   deleterSection false 0 (some (.add 0 "alice".toList "one".toList)),
   deleterSection false 0 none,
   deleterSection true 0 (some (.delete 0 1 "alice".toList false))]

/-- The room is deleted and created again elsewhere. -/
def roomReopened : List (Bool × Env × Option HistoryOp) :=
  [deleterSection false 0 (some (.deleteRoom 0)),
   deleterSection false 1 (some (.create "lounge".toList 0))]

theorem deletionStarted_loc :
    (run (messageRace Bool) (messageStart (.empty, registryInit ⟨4, 4, 4, 10⟩))
      deletionStarted).loc true = .deleteRow 1 := by
  decide +kernel

/-- The deletion ends before the room is created again. -/
theorem deletion_final_ended :
    Gone 1 (run (messageRace Bool) (messageStart (.empty, registryInit ⟨4, 4, 4, 10⟩))
      (deletionStarted ++ deleterSection true 0 none :: roomReopened)).shared := by
  refine deletion_final ⟨4, 4, 4, 10⟩ .empty (by simp [Database.empty, Messages.empty])
    (deletionStarted ++ deleterSection true 0 none :: roomReopened) ?_ ?_
    deletionStarted true _ roomReopened 1 rfl deletionStarted_loc roomReopened List.prefix_rfl
  · simp [deletionStarted, roomReopened, deleterSection, Env.calm]
  · refine ⟨noReload_of_idle (fun _ => rfl) _, noReload_of_no_create (by simp [deleterSection]),
      noReload_of_no_create (by simp [deleterSection]),
      noReload_of_no_create (by simp [deleterSection]),
      noReload_of_no_create (by simp [deleterSection]),
      noReload_of_no_create (by simp [deleterSection]), noReload_of_idle ?_ _, trivial⟩
    decide +kernel

/-- The deletion ends after the room is created again with the message. -/
theorem deletion_not_final :
    let reached := run (messageRace Bool) (messageStart (.empty, registryInit ⟨4, 4, 4, 10⟩))
    ¬ ∀ pre i input post msgId,
      deletionStarted ++ roomReopened ++ [deleterSection true 0 none] = pre ++ (i, input) :: post →
      (reached pre).loc i = .deleteRow msgId →
      ∀ fs, fs <+: post → Gone msgId (reached (pre ++ (i, input) :: fs)).shared := by
  intro reached h
  have hgone := h (deletionStarted ++ roomReopened) true _ [] 1 rfl (by decide +kernel) []
    List.prefix_rfl
  have hslot := hgone.rooms 1 (by decide +kernel) 0 (by decide +kernel)
  revert hslot
  decide +kernel

end ChatServer
