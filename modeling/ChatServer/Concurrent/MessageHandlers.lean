import ChatServer.History.Backed
import ChatServer.History.Mirror
import ChatServer.Library.Interleave

/-! # Message handlers section by section

MSG, EDIT and DELETE as the two critical sections they pass through, one on the
buffer of the room and one on the table, which those of other handlers may come
between. The creation and the deletion of a room are one section each.
-/

namespace ChatServer

open Library

/-- The section a handler enters next. -/
inductive MessagePhase where
  | idle
  | addEntry (room : RoomPtr) (msgId : ℤ) (sender text : Text)
  | editRow (msgId : ℤ) (newText : Text)
  | deleteRow (msgId : ℤ)
  deriving DecidableEq, Repr

/-- The message that a handler has changed in the buffer and goes on to change in the table. -/
def MessagePhase.changes : MessagePhase → Option ℤ
  | .editRow msgId _ => some msgId
  | .deleteRow msgId => some msgId
  | _ => none

/-- What an EDIT and a DELETE make of the message in the buffer. -/
def editEntry (env : Env) (newText : Text) (m : Message) : Message :=
  { m with text := strncpy maxTextLen newText, editedAt := env.now }

def deleteEntry (m : Message) : Message :=
  { m with deleted := true, text := strncpy maxTextLen "[deleted]".toList }

theorem deleted_text : strncpy maxTextLen "[deleted]".toList = "[deleted]".toList := by decide

/-- The second section of `room_add_history`. -/
def enterHistory (env : Env) (room : RoomPtr) (msgId : ℤ) (sender text : Text) (reg : Registry) :
    Registry :=
  if (reg.rooms room).history.cap = 0 then reg
  else reg.modifyRoom room fun room =>
    { room with history := addMessage room.history (newMessage env msgId sender text) }

/-- The first section of a handler. An EDIT and a DELETE look for positive ids only. -/
def startMessage (env : Env) (s : Database × Registry) :
    HistoryOp → (Database × Registry) × MessagePhase
  | .create roomName creator =>
    ((s.1, (createRoom env (some roomName) (some creator) s.1 s.2).2.2), .idle)
  | .add room sender text =>
    if room ∈ s.2.roomList then
      let saved := dbSaveMessage env (s.2.rooms room).roomName sender text s.1
      let msgId := if saved.1 ≤ 0 then env.now * 1000000 + (env.rand % 1000000 : ℕ) else saved.1
      ((saved.2, s.2), .addEntry room msgId sender text)
    else (s, .idle)
  | .edit room msgId requester newText =>
    if room ∈ s.2.roomList ∧ 0 < msgId then
      match changeMessage (s.2.rooms room).history msgId (fun m => m.sender = requester)
        (editEntry env newText) with
      | (.ok, history) =>
        ((s.1, s.2.modifyRoom room fun room => { room with history }), .editRow msgId newText)
      | _ => (s, .idle)
    else (s, .idle)
  | .delete room msgId requester isAdmin =>
    if room ∈ s.2.roomList ∧ 0 < msgId then
      match changeMessage (s.2.rooms room).history msgId (fun m => m.sender = requester ∨ isAdmin)
        deleteEntry with
      | (.ok, history) =>
        ((s.1, s.2.modifyRoom room fun room => { room with history }), .deleteRow msgId)
      | _ => (s, .idle)
    else (s, .idle)
  | .deleteRoom room => ((s.1, (deleteRoom (some room) s.2).2), .idle)

/-- One section of a handler; an idle one may be given an operation. -/
def messageSection (s : (Database × Registry) × MessagePhase) (input : Env × Option HistoryOp) :
    (Database × Registry) × MessagePhase :=
  match s.2 with
  | .idle =>
    match input.2 with
    | none => s
    | some op => startMessage input.1 s.1 op
  | .addEntry room msgId sender text =>
    ((s.1.1, enterHistory input.1 room msgId sender text s.1.2), .idle)
  | .editRow msgId newText => ((dbEditMessage input.1 msgId newText s.1.1, s.1.2), .idle)
  | .deleteRow msgId => ((dbDeleteMessage input.1 msgId s.1.1, s.1.2), .idle)

variable {env : Env} {s : Database × Registry} {op : HistoryOp}

/-- Two sections that nothing comes between are the whole operation. -/
theorem run_messageSection_eq_historyStep (env : Env) (s : Database × Registry)
    (hid : ∀ msgId ∈ op.changes, 0 < msgId) :
    run messageSection (s, .idle) [(env, some op), (env, none)] =
      (historyStep s (env, op), .idle) := by
  simp only [run_cons, run_nil]
  cases op with
  | create roomName creator => rfl
  | add room sender text =>
    by_cases hroom : room ∈ s.2.roomList
    · simp only [messageSection, startMessage, historyStep, if_pos hroom, roomAddHistory,
        enterHistory]
      split_ifs <;> rfl
    · simp only [messageSection, startMessage, historyStep, if_neg hroom]
  | edit room msgId requester newText =>
    have hpos : 0 < msgId := hid msgId rfl
    by_cases hroom : room ∈ s.2.roomList
    · have hentry : editEntry env newText = fun m =>
          { m with text := strncpy maxTextLen newText, editedAt := env.now } := rfl
      simp only [messageSection, startMessage, historyStep, hroom, hpos, and_self, if_true,
        roomEditMessage, hentry]
      rcases changeMessage _ _ _ _ with ⟨res, history⟩
      cases res <;> rfl
    · simp only [messageSection, startMessage, historyStep, hroom, false_and, if_false]
  | delete room msgId requester isAdmin =>
    have hpos : 0 < msgId := hid msgId rfl
    by_cases hroom : room ∈ s.2.roomList
    · have hentry : deleteEntry = fun m =>
          { m with deleted := true, text := strncpy maxTextLen "[deleted]".toList } := rfl
      simp only [messageSection, startMessage, historyStep, hroom, hpos, and_self, if_true,
        roomDeleteMessage, hentry]
      rcases changeMessage _ _ _ _ with ⟨res, history⟩
      cases res <;> rfl
    · simp only [messageSection, startMessage, historyStep, hroom, false_and, if_false]
  | deleteRoom room => rfl

/-- The sections that change something, with the section that follows. -/
inductive MessageSection (env : Env) (s : Database × Registry) :
    MessagePhase → Option HistoryOp → (Database × Registry) × MessagePhase → Prop
  | create {n : Text} {c : ClientPtr} {r : RoomPtr} {reg : Registry}
      (made : createRoom env (some n) (some c) s.1 s.2 = (.ok, some r, reg)) :
      MessageSection env s .idle (some (.create n c)) ((s.1, reg), .idle)
  | close {r : RoomPtr} (live : r ∈ s.2.roomList) :
      MessageSection env s .idle (some (.deleteRoom r))
        ((s.1, { s.2 with roomList := s.2.roomList.erase r }), .idle)
  | save {r : RoomPtr} {sender text : Text} {msgId : ℤ} {db : Database} (live : r ∈ s.2.roomList)
      (saved : dbSaveMessage env (s.2.rooms r).roomName sender text s.1 = (msgId, db)) :
      MessageSection env s .idle (some (.add r sender text))
        ((db, s.2), .addEntry r (if msgId ≤ 0 then
          env.now * 1000000 + (env.rand % 1000000 : ℕ) else msgId) sender text)
  | edit {r : RoomPtr} {msgId : ℤ} {requester newText : Text} {k : ℕ} (live : r ∈ s.2.roomList)
      (pos : 0 < msgId) (id : ((s.2.rooms r).history.slots k).id = msgId)
      (undeleted : ((s.2.rooms r).history.slots k).deleted = false) :
      MessageSection env s .idle (some (.edit r msgId requester newText))
        ((s.1, s.2.modifyRoom r fun room => { room with
          history := room.history.set k (editEntry env newText (room.history.slots k)) }),
          .editRow msgId newText)
  | delete {r : RoomPtr} {msgId : ℤ} {requester : Text} {isAdmin : Bool} {k : ℕ}
      (live : r ∈ s.2.roomList) (pos : 0 < msgId)
      (id : ((s.2.rooms r).history.slots k).id = msgId)
      (undeleted : ((s.2.rooms r).history.slots k).deleted = false) :
      MessageSection env s .idle (some (.delete r msgId requester isAdmin))
        ((s.1, s.2.modifyRoom r fun room => { room with
          history := room.history.set k (deleteEntry (room.history.slots k)) }),
          .deleteRow msgId)
  | addEntry {r : RoomPtr} {msgId : ℤ} {sender text : Text} {op : Option HistoryOp} :
      MessageSection env s (.addEntry r msgId sender text) op
        ((s.1, enterHistory env r msgId sender text s.2), .idle)
  | editRow {msgId : ℤ} {newText : Text} {op : Option HistoryOp} :
      MessageSection env s (.editRow msgId newText) op
        ((dbEditMessage env msgId newText s.1, s.2), .idle)
  | deleteRow {msgId : ℤ} {op : Option HistoryOp} :
      MessageSection env s (.deleteRow msgId) op ((dbDeleteMessage env msgId s.1, s.2), .idle)

theorem startMessage_cases (env : Env) (s : Database × Registry) (op : HistoryOp) :
    startMessage env s op = (s, .idle) ∨
      MessageSection env s .idle (some op) (startMessage env s op) := by
  cases op with
  | create n c =>
    rcases hcreate : createRoom env (some n) (some c) s.1 s.2 with ⟨err, o, reg⟩
    simp only [startMessage, hcreate]
    by_cases herr : err = .ok
    · subst herr
      obtain ⟨r, rfl, -⟩ := createRoom_ok hcreate
      exact .inr (.create hcreate)
    · rw [createRoom_err herr hcreate]
      exact .inl rfl
  | add r sender text =>
    by_cases hroom : r ∈ s.2.roomList
    · rcases hsaved : dbSaveMessage env (s.2.rooms r).roomName sender text s.1 with ⟨msgId, db⟩
      simp only [startMessage, if_pos hroom, hsaved]
      exact .inr (.save hroom hsaved)
    · exact .inl (if_neg hroom)
  | edit r msgId requester newText =>
    simp only [startMessage]
    split_ifs with hstart
    · split
      · rename_i hchange
        obtain ⟨k, hid, hdel, -, rfl⟩ := changeMessage_set hchange
        exact .inr (.edit hstart.1 hstart.2 hid hdel)
      · exact .inl rfl
    · exact .inl rfl
  | delete r msgId requester isAdmin =>
    simp only [startMessage]
    split_ifs with hstart
    · split
      · rename_i hchange
        obtain ⟨k, hid, hdel, -, rfl⟩ := changeMessage_set hchange
        exact .inr (.delete hstart.1 hstart.2 hid hdel)
      · exact .inl rfl
    · exact .inl rfl
  | deleteRoom r =>
    simp only [startMessage, deleteRoom]
    split_ifs with hroom
    · exact .inr (.close hroom)
    · exact .inl rfl

theorem messageSection_cases (s : Database × Registry) (phase : MessagePhase)
    (input : Env × Option HistoryOp) :
    phase = .idle ∧ messageSection (s, phase) input = (s, .idle) ∨
      MessageSection input.1 s phase input.2 (messageSection (s, phase) input) := by
  obtain ⟨env, op⟩ := input
  cases phase with
  | idle =>
    cases op with
    | none => exact .inl ⟨rfl, rfl⟩
    | some op => exact (startMessage_cases env s op).imp (fun h => ⟨rfl, h⟩) id
  | addEntry r msgId sender text => exact .inr .addEntry
  | editRow msgId newText => exact .inr .editRow
  | deleteRow msgId => exact .inr .deleteRow

section Race

/-- The table and the rooms, and the section that each handler is at. -/
abbrev MessageThreads (ι : Type*) := Threads ι (Database × Registry) MessagePhase

variable (ι : Type*) [DecidableEq ι]

/-- One section of one of the handlers. -/
abbrev messageRace : MessageThreads ι → ι × Env × Option HistoryOp → MessageThreads ι :=
  Threads.step fun _ => messageSection

variable {ι}

/-- No handler has started. -/
def messageStart (s : Database × Registry) : MessageThreads ι := ⟨s, fun _ => .idle⟩

/-- A step leaves everything as it is, or it is a section of the handler that moves. -/
theorem messageRace_cases (s : MessageThreads ι) (i : ι) (env : Env)
    (op : Option HistoryOp) :
    (s.loc i = .idle ∧ (messageRace ι s (i, env, op)).loc i = .idle ∧
      (messageRace ι s (i, env, op)).shared = s.shared) ∨
    ∃ phase next, s.loc i = phase ∧ (messageRace ι s (i, env, op)).loc i = next.2 ∧
      (messageRace ι s (i, env, op)).shared = next.1 ∧
      MessageSection env s.shared phase op next := by
  have hnext : (messageRace ι s (i, env, op)).loc i =
      (messageSection (s.shared, s.loc i) (env, op)).2 := Threads.step_loc_self
  have hshared : (messageRace ι s (i, env, op)).shared =
      (messageSection (s.shared, s.loc i) (env, op)).1 := Threads.step_shared
  rcases messageSection_cases s.shared (s.loc i) (env, op) with ⟨hidle, hstill⟩ | hsection
  · rw [hstill] at hnext hshared
    exact .inl ⟨hidle, hnext, hshared⟩
  · exact .inr ⟨_, _, rfl, hnext, hshared, hsection⟩

/-- A handler has yet to delete a row. -/
def Deleting (s : MessageThreads ι) (msgId : ℤ) : Prop := ∃ j, s.loc j = .deleteRow msgId

omit [DecidableEq ι] in
theorem deleting_iff {s s' : MessageThreads ι} {i : ι} {msgId : ℤ}
    (hothers : ∀ j, j ≠ i → s'.loc j = s.loc j)
    (hi : s'.loc i = .deleteRow msgId ↔ s.loc i = .deleteRow msgId) :
    Deleting s' msgId ↔ Deleting s msgId :=
  Threads.exists_loc_iff (p := fun phase : MessagePhase => phase = .deleteRow msgId) hothers hi

end Race

end ChatServer
