import ChatServer.History.Buffer
import ChatServer.Library.Checked

/-! # The indices of the history

The history of a room as its five functions compute on it: three `int`s and an
array, every sum and every index checked. Up to a capacity of 2^30 no check
fails, and the functions do what they do on the ring.
-/

namespace ChatServer

open Library Checked

/-- The history fields of `room_t`. -/
structure RoomHistory where
  history : ℕ → Message
  historyStart : ℤ
  historyCount : ℤ
  historyCapacity : ℤ

namespace RoomHistory

/-- The history of a room just allocated. -/
def fresh (cap : ℤ) : RoomHistory := ⟨fun _ => zeroMessage, 0, 0, cap⟩

/-- The slot of the next message, and the start behind it. -/
def nextSlot (h : RoomHistory) : Except Fault (ℤ × ℤ) :=
  if h.historyCount < h.historyCapacity then return (h.historyCount, h.historyStart)
  else do
    let next ← add h.historyStart 1
    let start ← rem next h.historyCapacity
    return (h.historyStart, start)

/-- Write a slot. -/
def put (h : RoomHistory) (slot : ℤ) (m : Message) : Except Fault RoomHistory := do
  let i ← index slot h.historyCapacity
  return { h with history := Function.update h.history i m }

/-- Read a slot. -/
def read (h : RoomHistory) (slot : ℤ) : Except Fault Message := do
  let i ← index slot h.historyCapacity
  return h.history i

/-- Load one row in `create_room`, whose count stops at the capacity. -/
def loadRow (h : RoomHistory) (row : Message) : Except Fault RoomHistory := do
  let (slot, historyStart) ← h.nextSlot
  let h ← put { h with historyStart } slot
    { row with
      sender := strncpy maxUsernameLen row.sender
      text := strncpy maxTextLen row.text }
  if h.historyCount < h.historyCapacity then
    let historyCount ← add h.historyCount 1
    return { h with historyCount }
  else return h

/-- The part of `room_add_history` under the lock: the slot written, and the history. -/
def addHistory (h : RoomHistory) (m : Message) : Except Fault (List ℤ × RoomHistory) :=
  if h.historyCapacity ≤ 0 then return ([], h)
  else do
    let (slot, historyStart) ← h.nextSlot
    let h ← put { h with historyStart } slot m
    if h.historyCount < 1000000 then
      let historyCount ← add h.historyCount 1
      return ([slot], { h with historyCount })
    else return ([slot], { h with historyCount := h.historyCapacity })

/-- The number of messages a scan goes through. -/
def stored (h : RoomHistory) : ℤ :=
  if h.historyCount < h.historyCapacity then h.historyCount else h.historyCapacity

/-- The index of round `i` of a scan. -/
def cursor (h : RoomHistory) (i : ℤ) : Except Fault ℤ :=
  if h.historyCount < h.historyCapacity then return i
  else do
    let sum ← add h.historyStart i
    rem sum h.historyCapacity

/-- The rounds of replay: the slots read. -/
def sendLoop (h : RoomHistory) : ℕ → ℤ → Except Fault (List ℤ)
  | 0, _ => return []
  | rounds + 1, i => do
    let idx ← h.cursor i
    let _ ← h.read idx
    let i ← add i 1
    let visited ← sendLoop h rounds i
    return idx :: visited

/-- `room_send_history`: the slots read. -/
def sendHistory (h : RoomHistory) : Except Fault (List ℤ) :=
  if h.historyCapacity ≤ 0 ∨ h.stored = 0 then return []
  else h.sendLoop h.stored.toNat 0

/-- The rounds of a search, which ends at the id: the slots read, and the one found. -/
def findLoop (h : RoomHistory) (msgId : ℤ) : ℕ → ℤ → Except Fault (List ℤ × Option ℤ)
  | 0, _ => return ([], none)
  | rounds + 1, i => do
    let idx ← h.cursor i
    let m ← h.read idx
    if m.id = msgId then return ([idx], some idx)
    else
      let i ← add i 1
      let (visited, found) ← findLoop h msgId rounds i
      return (idx :: visited, found)

/-- `room_find_message`: the slots read, and the one found. -/
def findMessage (h : RoomHistory) (msgId : ℤ) : Except Fault (List ℤ × Option ℤ) :=
  if msgId ≤ 0 then return ([], none) else h.findLoop msgId h.stored.toNat 0

/-- The part of an edit and of a deletion under the lock: the slots read, and the history. -/
def change (h : RoomHistory) (msgId : ℤ) (mayChange : Message → Bool)
    (change : Message → Message) : Except Fault (List ℤ × RoomHistory) := do
  let (visited, found) ← h.findLoop msgId h.stored.toNat 0
  match found with
  | none => return (visited, h)
  | some idx =>
    let m ← h.read idx
    if m.deleted then return (visited, h)
    else if !mayChange m then return (visited, h)
    else
      let h ← h.put idx (change m)
      return (visited, h)

def editMessage (h : RoomHistory) (msgId : ℤ) (requester newText : Text) (now : ℤ) :
    Except Fault (List ℤ × RoomHistory) :=
  h.change msgId (fun m => m.sender = requester)
    fun m => { m with text := strncpy maxTextLen newText, editedAt := now }

def deleteMessage (h : RoomHistory) (msgId : ℤ) (requester : Text) (isAdmin : Bool) :
    Except Fault (List ℤ × RoomHistory) :=
  h.change msgId (fun m => m.sender = requester ∨ isAdmin)
    fun m => { m with deleted := true, text := strncpy maxTextLen "[deleted]".toList }

end RoomHistory

/-- A call of one of the functions on the history of a room. -/
inductive HistoryCall where
  | add (message : Message)
  | edit (msgId : ℤ) (requester newText : Text) (now : ℤ)
  | delete (msgId : ℤ) (requester : Text) (isAdmin : Bool)
  | find (msgId : ℤ)
  | send

/-- The slots a call visits, and the history it leaves. -/
def historyCall (h : RoomHistory) : HistoryCall → Except Fault (List ℤ × RoomHistory)
  | .add message => h.addHistory message
  | .edit msgId requester newText now => h.editMessage msgId requester newText now
  | .delete msgId requester isAdmin => h.deleteMessage msgId requester isAdmin
  | .find msgId => do
    let (visited, _) ← h.findMessage msgId
    return (visited, h)
  | .send => do
    let visited ← h.sendHistory
    return (visited, h)

/-- The history of a new room with some rows loaded. -/
def createHistory (cap : ℤ) (rows : List Message) : Except Fault RoomHistory :=
  rows.foldlM RoomHistory.loadRow (.fresh cap)

/-- The history after some calls. -/
def historyCalls (h : RoomHistory) (calls : List HistoryCall) : Except Fault RoomHistory :=
  calls.foldlM (fun h call => Prod.snd <$> historyCall h call) h

/-- The fields of the room that hold a ring. -/
def fieldsOf (h : RingBuffer Message) : RoomHistory := ⟨h.slots, h.start, h.count, h.cap⟩

/-- A ring whose indices and counts are `int`s. -/
structure Fits (h : RingBuffer Message) : Prop where
  valid : h.Valid
  cap_le : h.cap ≤ 2 ^ 30
  count_le : h.count ≤ max 1000000 h.cap

variable {h : RingBuffer Message} {m row : Message} {msgId : ℤ} {i n : ℕ}

theorem nextSlot_fieldsOf (hf : Fits h) : (fieldsOf h).nextSlot =
    .ok (h.slot, (if h.count < h.cap then h.start else (h.start + 1) % h.cap : ℕ)) := by
  have hs := hf.valid.start_lt
  have hle := hf.cap_le
  unfold RoomHistory.nextSlot RingBuffer.slot fieldsOf
  simp only [Nat.cast_lt]
  split_ifs with hlt
  · rfl
  · rw [← Nat.cast_one, add_natCast (by omega), ok_bind, rem_natCast (by omega)]
    rfl

theorem put_fieldsOf {slot : ℕ} (hslot : slot < h.cap) {start : ℤ} :
    RoomHistory.put { fieldsOf h with historyStart := start } slot m =
      .ok { fieldsOf h with
        history := Function.update h.slots slot m
        historyStart := start } := by
  rw [RoomHistory.put, fieldsOf, index_natCast hslot, ok_bind]
  rfl

theorem loadRow_fieldsOf (hf : Fits h) :
    (fieldsOf h).loadRow row = .ok (fieldsOf (loadMessage h row)) := by
  have hle := hf.cap_le
  rw [RoomHistory.loadRow, nextSlot_fieldsOf hf, ok_bind]
  simp only [put_fieldsOf hf.valid.slot_lt, ok_bind]
  simp only [fieldsOf, Nat.cast_lt]
  unfold loadMessage RingBuffer.write
  split_ifs with hlt
  · rw [← Nat.cast_one, add_natCast (by omega), ok_bind]
    rfl
  · rfl

theorem addHistory_fieldsOf (hf : Fits h) :
    (fieldsOf h).addHistory m = .ok ([(h.slot : ℤ)], fieldsOf (addMessage h m)) := by
  have hs := hf.valid.start_lt
  have hle := hf.cap_le
  have hcount := hf.count_le
  have hpos : ¬(fieldsOf h).historyCapacity ≤ 0 := by
    simp only [fieldsOf]
    omega
  rw [RoomHistory.addHistory, if_neg hpos, nextSlot_fieldsOf hf, ok_bind]
  dsimp only
  rw [put_fieldsOf hf.valid.slot_lt, ok_bind]
  by_cases hlt : h.count < 1000000
  · have hlt' : (fieldsOf h).historyCount < 1000000 := by
      simp only [fieldsOf]
      omega
    have hadd : add (fieldsOf h).historyCount 1 = .ok ((h.count + 1 : ℕ) : ℤ) :=
      add_natCast (b := 1) (by omega)
    rw [if_pos hlt', hadd, addMessage, if_pos hlt]
    rfl
  · have hlt' : ¬(fieldsOf h).historyCount < 1000000 := by
      simp only [fieldsOf]
      omega
    rw [if_neg hlt', addMessage, if_neg hlt]
    rfl

theorem cursor_fieldsOf (hf : Fits h) (hi : i < h.stored) :
    (fieldsOf h).cursor i = .ok (h.index i : ℤ) := by
  have hs := hf.valid.start_lt
  have hle := hf.cap_le
  have hst := h.stored_le
  unfold RoomHistory.cursor RingBuffer.index fieldsOf
  simp only [Nat.cast_lt]
  split_ifs with hlt
  · rfl
  · rw [add_natCast (by omega), ok_bind, rem_natCast (by omega)]

theorem read_fieldsOf (hi : i < h.stored) :
    (fieldsOf h).read (h.index i : ℤ) = .ok (h.slots (h.index i)) := by
  rw [RoomHistory.read, fieldsOf, index_natCast (RingBuffer.index_lt hi), ok_bind]
  rfl

theorem stored_fieldsOf : (fieldsOf h).stored = (h.stored : ℤ) := by
  unfold RoomHistory.stored RingBuffer.stored fieldsOf
  simp only [Nat.cast_lt]
  split_ifs <;> rfl

/-- The indices of some rounds of a scan, from round `i` on. -/
def roundIndices (h : RingBuffer Message) (i n : ℕ) : List ℤ :=
  (List.range' i n).map fun j => (h.index j : ℤ)

theorem roundIndices_succ :
    roundIndices h i (n + 1) = (h.index i : ℤ) :: roundIndices h (i + 1) n := rfl

/-- The rounds of a scan visit distinct slots of the array. -/
theorem roundIndices_spec (hf : Fits h) :
    (roundIndices h 0 h.stored).Nodup ∧
      ∀ idx ∈ roundIndices h 0 h.stored, 0 ≤ idx ∧ idx < h.cap := by
  constructor
  · refine List.Nodup.map_on (fun i hi j hj hij => ?_) List.nodup_range'
    simp only [List.mem_range'_1] at hi hj
    exact hf.valid.index_injOn (by omega) (by omega) (Nat.cast_injective hij)
  · intro idx hidx
    obtain ⟨i, hi, rfl⟩ := List.mem_map.mp hidx
    simp only [List.mem_range'_1] at hi
    have hlt := RingBuffer.index_lt (r := h) (i := i) (by omega)
    omega

theorem sendLoop_fieldsOf (hf : Fits h) (hn : i + n ≤ h.stored) :
    (fieldsOf h).sendLoop n i = .ok (roundIndices h i n) := by
  have hst := h.stored_le
  have hle := hf.cap_le
  induction n generalizing i with
  | zero => rfl
  | succ n ih =>
    rw [RoomHistory.sendLoop, cursor_fieldsOf hf (by omega), ok_bind, read_fieldsOf (by omega),
      ok_bind, ← Nat.cast_one, add_natCast (by omega), ok_bind, ih (by omega), ok_bind,
      roundIndices_succ]
    rfl

theorem findLoop_fieldsOf (msgId : ℤ) (i n : ℕ) (hf : Fits h) (hn : i + n ≤ h.stored) :
    ∃ visited, (fieldsOf h).findLoop msgId n i =
        .ok (visited, (roundIndices h i n).find? fun idx => (h.slots idx.toNat).id = msgId) ∧
      visited <+: roundIndices h i n := by
  have hst := h.stored_le
  have hle := hf.cap_le
  induction n generalizing i with
  | zero => exact ⟨[], rfl, List.prefix_rfl⟩
  | succ n ih =>
    obtain ⟨visited, hfind, hpre⟩ := ih (i + 1) (by omega)
    rw [RoomHistory.findLoop, cursor_fieldsOf hf (by omega), ok_bind, read_fieldsOf (by omega),
      ok_bind, roundIndices_succ]
    by_cases hid : (h.slots (h.index i)).id = msgId
    · refine ⟨[(h.index i : ℤ)], ?_, ?_⟩
      · rw [if_pos hid, List.find?_cons_of_pos (by simpa using hid)]
        rfl
      · exact List.cons_prefix_cons.mpr ⟨rfl, List.nil_prefix⟩
    · refine ⟨(h.index i : ℤ) :: visited, ?_, List.cons_prefix_cons.mpr ⟨rfl, hpre⟩⟩
      rw [if_neg hid, List.find?_cons_of_neg (by simpa using hid), ← Nat.cast_one,
        add_natCast (by omega), ok_bind, hfind]
      rfl

theorem historyFind_eq (hf : Fits h) : historyFind h msgId =
    (roundIndices h 0 h.stored).find? fun idx => (h.slots idx.toNat).id = msgId := by
  have hs := hf.valid.start_lt
  have hle := hf.cap_le
  have hmap : (List.range h.stored).map (historyIndex h) = roundIndices h 0 h.stored := by
    rw [roundIndices, ← List.range_eq_range']
    exact List.map_congr_left fun i hi =>
      historyIndex_eq (.inr (by omega)) (List.mem_range.mp hi)
  rw [historyFind, hmap, roundIndices, List.find?_map, List.find?_map]
  simp only [Function.comp_def, historyRead_index, Option.map_some, Option.some_inj,
    Int.toNat_natCast]

theorem change_fieldsOf (msgId : ℤ) (hf : Fits h) (mayChange : Message → Bool)
    (change : Message → Message) :
    ∃ visited, (fieldsOf h).change msgId mayChange change =
        .ok (visited, fieldsOf (changeMessage h msgId mayChange change).2) ∧
      visited <+: roundIndices h 0 h.stored := by
  obtain ⟨visited, hfind, hpre⟩ :=
    findLoop_fieldsOf msgId 0 h.stored hf (by omega)
  refine ⟨visited, ?_, hpre⟩
  rw [RoomHistory.change, stored_fieldsOf, Int.toNat_natCast, ← Nat.cast_zero, hfind, ok_bind,
    ← historyFind_eq hf, changeMessage]
  cases hidx : historyFind h msgId with
  | none => rfl
  | some idx =>
    rw [historyFind_eq hf] at hidx
    obtain ⟨i, hi, rfl⟩ := List.mem_map.mp (List.mem_of_find?_eq_some hidx)
    simp only [List.mem_range'_1] at hi
    have hlt := RingBuffer.index_lt (r := h) (i := i) (by omega)
    dsimp only
    rw [read_fieldsOf (by omega), ok_bind, Int.toNat_natCast]
    split_ifs
    · rfl
    · rfl
    · rw [RoomHistory.put, fieldsOf, index_natCast hlt, ok_bind]
      rfl

/-- A call on the ring. -/
def ringCall (h : RingBuffer Message) : HistoryCall → RingBuffer Message
  | .add message => addMessage h message
  | .edit msgId requester newText now =>
    (changeMessage h msgId (fun m => m.sender = requester)
      fun m => { m with text := strncpy maxTextLen newText, editedAt := now }).2
  | .delete msgId requester isAdmin =>
    (changeMessage h msgId (fun m => m.sender = requester ∨ isAdmin)
      fun m => { m with deleted := true, text := strncpy maxTextLen "[deleted]".toList }).2
  | .find _ => h
  | .send => h

/-- Every call does on the fields what it does on the ring, visiting distinct slots. -/
theorem historyCall_fieldsOf (hf : Fits h) (call : HistoryCall) :
    ∃ visited, historyCall (fieldsOf h) call = .ok (visited, fieldsOf (ringCall h call)) ∧
      visited.Nodup ∧ ∀ idx ∈ visited, 0 ≤ idx ∧ idx < h.cap := by
  have hs := hf.valid.start_lt
  obtain ⟨hnodup, hrange⟩ := roundIndices_spec hf
  have hscan : ∀ visited : List ℤ, visited <+: roundIndices h 0 h.stored →
      visited.Nodup ∧ ∀ idx ∈ visited, 0 ≤ idx ∧ idx < h.cap := fun visited hpre =>
    ⟨hnodup.sublist hpre.sublist, fun idx hidx => hrange idx (hpre.subset hidx)⟩
  cases call with
  | add m =>
    have hslot := hf.valid.slot_lt
    refine ⟨[(h.slot : ℤ)], addHistory_fieldsOf hf, List.nodup_singleton _, fun idx hidx => ?_⟩
    rw [List.mem_singleton.mp hidx]
    omega
  | edit msgId requester newText now =>
    obtain ⟨visited, hchange, hpre⟩ := change_fieldsOf msgId hf _ _
    exact ⟨visited, hchange, hscan visited hpre⟩
  | delete msgId requester isAdmin =>
    obtain ⟨visited, hchange, hpre⟩ := change_fieldsOf msgId hf _ _
    exact ⟨visited, hchange, hscan visited hpre⟩
  | find msgId =>
    by_cases hid : msgId ≤ 0
    · refine ⟨[], ?_, hscan [] List.nil_prefix⟩
      rw [historyCall, RoomHistory.findMessage, if_pos hid]
      rfl
    · obtain ⟨visited, hfind, hpre⟩ :=
        findLoop_fieldsOf msgId 0 h.stored hf (by omega)
      refine ⟨visited, ?_, hscan visited hpre⟩
      rw [historyCall, RoomHistory.findMessage, if_neg hid, stored_fieldsOf, Int.toNat_natCast,
        ← Nat.cast_zero, hfind]
      rfl
  | send =>
    by_cases hempty : (fieldsOf h).historyCapacity ≤ 0 ∨ (fieldsOf h).stored = 0
    · refine ⟨[], ?_, hscan [] List.nil_prefix⟩
      rw [historyCall, RoomHistory.sendHistory, if_pos hempty]
      rfl
    · refine ⟨roundIndices h 0 h.stored, ?_, hscan _ List.prefix_rfl⟩
      rw [historyCall, RoomHistory.sendHistory, if_neg hempty, stored_fieldsOf,
        Int.toNat_natCast, ← Nat.cast_zero, sendLoop_fieldsOf hf (by omega)]
      rfl

theorem changeMessage_eq_or_set (mayChange : Message → Bool) (change : Message → Message) :
    (changeMessage h msgId mayChange change).2 = h ∨
      ∃ i x, (changeMessage h msgId mayChange change).2 = h.set i x := by
  unfold changeMessage
  cases historyFind h msgId with
  | none => exact .inl rfl
  | some idx =>
    dsimp only
    split_ifs
    · exact .inl rfl
    · exact .inl rfl
    · exact .inr ⟨_, _, rfl⟩

theorem ringCall_cases (h : RingBuffer Message) (call : HistoryCall) :
    (∃ m, ringCall h call = addMessage h m) ∨ ringCall h call = h ∨
      ∃ i x, ringCall h call = h.set i x := by
  cases call with
  | add m => exact .inl ⟨m, rfl⟩
  | edit => exact .inr (changeMessage_eq_or_set _ _)
  | delete => exact .inr (changeMessage_eq_or_set _ _)
  | find => exact .inr (.inl rfl)
  | send => exact .inr (.inl rfl)

theorem ringCall_cap (call : HistoryCall) : (ringCall h call).cap = h.cap := by
  obtain ⟨m, hcall⟩ | hcall | ⟨i, x, hcall⟩ := ringCall_cases h call <;> rw [hcall] <;> rfl

theorem Fits.ringCall (hf : Fits h) (call : HistoryCall) : Fits (ringCall h call) := by
  obtain ⟨hv, hle, hcount⟩ := hf
  obtain ⟨m, hcall⟩ | hcall | ⟨i, x, hcall⟩ := ringCall_cases h call <;> rw [hcall]
  · refine ⟨addMessage_valid hv, hle, ?_⟩
    simp only [addMessage, RingBuffer.write_count, RingBuffer.write_cap]
    split_ifs <;> omega
  · exact ⟨hv, hle, hcount⟩
  · exact ⟨hv.set i x, hle, hcount⟩

theorem ringCall_full (call : HistoryCall) (hfull : h.cap ≤ h.count) :
    (ringCall h call).cap ≤ (ringCall h call).count := by
  obtain ⟨m, hcall⟩ | hcall | ⟨i, x, hcall⟩ := ringCall_cases h call <;> rw [hcall]
  · simp only [addMessage, RingBuffer.write_count, RingBuffer.write_cap]
    split_ifs <;> omega
  · exact hfull
  · exact hfull

theorem Fits.loadMessage (hf : Fits h) : Fits (loadMessage h row) := by
  obtain ⟨hv, hle, hcount⟩ := hf
  refine ⟨hv.write _ ?_, hle, ?_⟩
  · split_ifs <;> omega
  · simp only [ChatServer.loadMessage, RingBuffer.write_count, RingBuffer.write_cap]
    split_ifs <;> omega

/-- What any calls make of a history whose indices fit. -/
theorem exists_historyCalls (hf : Fits h) (calls : List HistoryCall) :
    ∃ g, historyCalls (fieldsOf h) calls = .ok (fieldsOf g) ∧ Fits g ∧ g.cap = h.cap ∧
      (h.cap ≤ h.count → g.cap ≤ g.count) := by
  induction calls generalizing h with
  | nil => exact ⟨h, rfl, hf, rfl, id⟩
  | cons call calls ih =>
    obtain ⟨visited, hcall, -⟩ := historyCall_fieldsOf hf call
    obtain ⟨g, hcalls, hg, hcap, hfull⟩ := ih (hf.ringCall call)
    refine ⟨g, ?_, hg, hcap.trans (ringCall_cap call), fun h => hfull (ringCall_full call h)⟩
    rw [historyCalls, List.foldlM_cons, hcall]
    exact hcalls

theorem foldlM_loadRow_fieldsOf (hf : Fits h) (rows : List Message) :
    ∃ g, rows.foldlM RoomHistory.loadRow (fieldsOf h) = .ok (fieldsOf g) ∧ Fits g ∧
      g.cap = h.cap := by
  induction rows generalizing h with
  | nil => exact ⟨h, rfl, hf, rfl⟩
  | cons row rows ih =>
    rw [List.foldlM_cons, loadRow_fieldsOf hf, ok_bind]
    exact ih hf.loadMessage

/-- The fields of a history are in range. -/
structure RoomHistory.InRange (cap : ℤ) (h : RoomHistory) : Prop where
  capacity : h.historyCapacity = cap
  start : 0 ≤ h.historyStart ∧ h.historyStart < cap
  start_eq : h.historyCount < cap → h.historyStart = 0
  count : 0 ≤ h.historyCount ∧ h.historyCount < 2 ^ 31

theorem Fits.inRange (hf : Fits h) : (fieldsOf h).InRange h.cap := by
  obtain ⟨hv, hle, hcount⟩ := hf
  have hs := hv.start_lt
  have hz := hv.start_eq
  refine ⟨rfl, ?_, ?_, ?_⟩ <;> simp only [fieldsOf] <;> omega

/--
Whatever rows are loaded and whatever is called, no `int` overflows and no
index leaves the array; a full history stays full, and no scan visits a slot
twice.
-/
theorem historyCalls_in_range {cap : ℤ} (hpos : 1 ≤ cap) (hcap : cap ≤ 2 ^ 30)
    (rows : List Message) (before after : List HistoryCall) (call : HistoryCall) :
    ∃ h h' h'' visited,
      (createHistory cap rows >>= fun h => historyCalls h before) = .ok h ∧
      historyCalls h after = .ok h' ∧
      h.InRange cap ∧ h'.InRange cap ∧
      (cap ≤ h.historyCount → cap ≤ h'.historyCount) ∧
      historyCall h' call = .ok (visited, h'') ∧
      visited.Nodup ∧ ∀ idx ∈ visited, 0 ≤ idx ∧ idx < cap := by
  obtain ⟨n, rfl⟩ := Int.eq_ofNat_of_zero_le (by omega : 0 ≤ cap)
  have hempty : Fits (.empty zeroMessage n) :=
    ⟨RingBuffer.valid_empty _ (by omega), by simp only [RingBuffer.empty]; omega, Nat.zero_le _⟩
  obtain ⟨loaded, hload, hloaded, hcap₀⟩ := foldlM_loadRow_fieldsOf hempty rows
  obtain ⟨g, hbefore, hg, hcap₁, -⟩ := exists_historyCalls hloaded before
  obtain ⟨g', hafter, hg', hcap₂, hfull⟩ := exists_historyCalls hg after
  obtain ⟨visited, hcall, hnodup, hvisited⟩ := historyCall_fieldsOf hg' call
  have hgcap : g.cap = n := hcap₁.trans hcap₀
  have hgcap' : g'.cap = n := hcap₂.trans hgcap
  rw [hgcap'] at hvisited
  refine ⟨_, _, _, visited, ?_, hafter, hgcap ▸ hg.inRange, hgcap' ▸ hg'.inRange, ?_, hcall,
    hnodup, hvisited⟩
  · change createHistory n rows = _ at hload
    rw [hload, ok_bind, hbefore]
  · simp only [fieldsOf]
    omega

theorem historyCalls_in_range_two : ∃ h h' h'' visited,
    (createHistory 2 [] >>= fun h => historyCalls h [.add zeroMessage]) = .ok h ∧
    historyCalls h [.add zeroMessage, .add zeroMessage] = .ok h' ∧
    h.InRange 2 ∧ h'.InRange 2 ∧ (2 ≤ h.historyCount → 2 ≤ h'.historyCount) ∧
    historyCall h' .send = .ok (visited, h'') ∧
    visited.Nodup ∧ ∀ idx ∈ visited, 0 ≤ idx ∧ idx < 2 :=
  historyCalls_in_range (by decide) (by decide) [] [.add zeroMessage]
    [.add zeroMessage, .add zeroMessage] .send

end ChatServer
