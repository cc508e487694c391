import ChatServer.History.Buffer
import ChatServer.Membership.Projection

/-! # The last messages of a room

A room created over an empty history, and the calls of `room_add_history` on
it. The buffer replays the last messages added, as long as its running count
does not return to a capacity the messages have not reached.
-/

namespace ChatServer

open Library

/-- One call of `room_add_history`, with its environment, sender and text. -/
abbrev AddCall := Env × Text × Text

/-- The database and the registry after a call. -/
def addCall (r : RoomPtr) (s : Database × Registry) (call : AddCall) : Database × Registry :=
  (roomAddHistory call.1 r call.2.1 call.2.2 s.1 s.2).2

/-- The messages a sequence of calls adds, each under the id its call returns. -/
def addedMessages (r : RoomPtr) : Database × Registry → List AddCall → List Message
  | _, [] => []
  | s, call :: calls =>
    newMessage call.1 (roomAddHistory call.1 r call.2.1 call.2.2 s.1 s.2).1 call.2.1 call.2.2 ::
      addedMessages r (addCall r s call) calls

/-- The lines that replay a list of messages. -/
def replay (roomName : Text) (ms : List Message) : List Line :=
  if ms = [] then []
  else
    [⟨snprintf maxLineLen (lineOf ["NOTICE history START".toList, roomName]), none⟩] ++
    (ms.map fun m => ⟨replayLine m, some (.stored roomName m.id)⟩) ++
    [⟨snprintf maxLineLen (lineOf ["NOTICE history END".toList, roomName]), none⟩]

/-- Scan, replay and search see the last of the messages added, in their order. -/
structure ReplaysLast (room : Room) (added : List Message) (cap : ℕ) : Prop where
  scan : historyScan room.history = (added.rtake cap).map some
  lines : historyLines room = replay room.roomName (added.rtake cap)
  find : ∀ msgId, roomFindMessage room msgId =
    if msgId ≤ 0 then none else (added.rtake cap).find? fun m => m.id = msgId

variable {env : Env} {reg reg' : Registry} {db : Database} {room : Room} {r : RoomPtr}
  {c : ClientPtr} {n : Text} {ms : List Message} {cap : ℕ} {s : Database × Registry}

theorem replaysLast_iff_scan :
    ReplaysLast room ms cap ↔ historyScan room.history = (ms.rtake cap).map some := by
  refine ⟨ReplaysLast.scan, fun h => ⟨h, ?_, fun msgId => ?_⟩⟩
  · have hlen : room.history.stored = (ms.rtake cap).length := by
      simpa [historyScan] using congrArg List.length h
    rw [historyLines, h, reduceOption_map_some, hlen, replay]
    simp only [List.length_eq_zero_iff]
  · rw [roomFindMessage, h, reduceOption_map_some]

/-- A message gets a positive id, whether or not its row could be saved. -/
theorem roomAddHistory_id_pos {sender text : Text} :
    0 < (roomAddHistory env r sender text db reg).1 := by
  have hnow := env.now_pos
  have hid : (roomAddHistory env r sender text db reg).1 =
      if (dbSaveMessage env (reg.rooms r).roomName sender text db).1 ≤ 0 then
        env.now * 1000000 + (env.rand % 1000000 : ℕ)
      else (dbSaveMessage env (reg.rooms r).roomName sender text db).1 := by
    unfold roomAddHistory
    dsimp only
    split <;> rfl
  rw [hid]
  split_ifs <;> omega

theorem addedMessages_length (calls : List AddCall) :
    (addedMessages r s calls).length = calls.length := by
  induction calls generalizing s with
  | nil => rfl
  | cons call calls ih => exact congrArg (· + 1) ih

theorem id_pos_of_mem_addedMessages {calls : List AddCall} {m : Message}
    (hm : m ∈ addedMessages r s calls) : 0 < m.id := by
  induction calls generalizing s with
  | nil => cases hm
  | cons call calls ih =>
    rcases List.mem_cons.mp hm with rfl | hm
    · exact roomAddHistory_id_pos
    · exact ih hm

theorem run_addCall_history (hcap : 0 < (s.2.rooms r).history.cap) (calls : List AddCall) :
    ((run (addCall r) s calls).2.rooms r).history =
      run addMessage (s.2.rooms r).history (addedMessages r s calls) := by
  induction calls generalizing s with
  | nil => rfl
  | cons call calls ih =>
    have hring : ((addCall r s call).2.rooms r).history =
        addMessage (s.2.rooms r).history
          (newMessage call.1 (roomAddHistory call.1 r call.2.1 call.2.2 s.1 s.2).1
            call.2.1 call.2.2) := by
      simp only [addCall, roomAddHistory, if_neg hcap.ne', Registry.modifyRoom, Registry.setRoom,
        Function.update_self]
    rw [run_cons, ih (by rw [hring, addMessage_cap]; exact hcap), hring]
    rfl

theorem createRoom_fresh_history
    (hc : createRoom env (some n) (some c) db reg = (.ok, some r, reg'))
    (hfresh : db.messages.ofRoom n = []) :
    (reg'.rooms r).history = .empty zeroMessage reg.historySize := by
  obtain ⟨r', hr, -, -, -, rfl⟩ := createRoom_ok hc
  obtain rfl := Option.some.inj hr
  have hload : dbLoadHistory env n reg.historySize db = [] := by
    unfold dbLoadHistory
    split_ifs
    · rfl
    · rw [hfresh, List.rtake_nil, List.map_nil]
      cases env.sql .loadHistory <;> simp [Sql.rows]
  have hnone : loadedRows env n reg.historySize db = [] :=
    List.sublist_nil.mp (hload ▸ loadedRows_sublist env n reg.historySize db)
  simp [newRoom, hnone]

/-- The scan after some calls on a new room, against the messages they added. -/
theorem scan_run_addCall (hc : createRoom env (some n) (some c) db reg = (.ok, some r, reg'))
    (hfresh : db.messages.ofRoom n = []) (hpos : 0 < reg.historySize) (calls : List AddCall) :
    historyScan ((run (addCall r) (db, reg') calls).2.rooms r).history =
      historyScan (run addMessage (.empty zeroMessage reg.historySize)
        (addedMessages r (db, reg') calls)) := by
  have hring := createRoom_fresh_history hc hfresh
  rw [run_addCall_history (by rw [hring]; exact hpos), hring]

/--
The buffer of a new room replays the last messages added exactly if its
capacity is at most 1000001, or at most 1000000 messages were added, or the
array has been overwritten since and its index stays below the limit of an int.
-/
theorem replaysLast_iff (hc : createRoom env (some n) (some c) db reg = (.ok, some r, reg'))
    (hfresh : db.messages.ofRoom n = []) (hpos : 1 ≤ reg.historySize)
    (hint : reg.historySize < 2 ^ 31) (calls : List AddCall) :
    ReplaysLast ((run (addCall r) (db, reg') calls).2.rooms r) (addedMessages r (db, reg') calls)
        reg.historySize ↔
      reg.historySize ≤ 1000001 ∨ calls.length ≤ 1000000 ∨
        (1000001 + reg.historySize ≤ calls.length ∧
          (calls.length - 1000001) % reg.historySize + reg.historySize ≤ 2 ^ 31) := by
  rw [replaysLast_iff_scan, scan_run_addCall hc hfresh hpos,
    historyScan_run_empty hpos hint fun m hm => id_pos_of_mem_addedMessages hm,
    addedMessages_length]

/-- A registry with room for one room and a history of the given size. -/
def loungeRegistry (historySize : ℤ) : Registry := registryInit ⟨1, 1, 1, historySize⟩

/-- The creation of a room over an empty database. -/
def loungeCreated (historySize : ℤ) : RoomErr × Option RoomPtr × Registry :=
  createRoom (.calm 0 0 []) (some "lounge".toList) (some 0) .empty (loungeRegistry historySize)

theorem loungeCreated_eq (historySize : ℤ) :
    loungeCreated historySize = (.ok, some 0, (loungeCreated historySize).2.2) := rfl

theorem replaysLast_three :
    ReplaysLast ((run (addCall 0) (.empty, (loungeCreated 2).2.2)
        (List.replicate 3 (.calm 0 0 [], "alice".toList, "hi".toList))).2.rooms 0)
      (addedMessages 0 (.empty, (loungeCreated 2).2.2)
        (List.replicate 3 (.calm 0 0 [], "alice".toList, "hi".toList))) 2 :=
  (replaysLast_iff (loungeCreated_eq 2) rfl (by decide) (by decide) _).mpr (.inl (by decide))

/-- One message past the limit of the count, in an array one slot larger than it can tell. -/
theorem replaysLast_million_false :
    ¬ ReplaysLast ((run (addCall 0) (.empty, (loungeCreated 1000002).2.2)
        (List.replicate 1000001 (.calm 0 0 [], "alice".toList, "hi".toList))).2.rooms 0)
      (addedMessages 0 (.empty, (loungeCreated 1000002).2.2)
        (List.replicate 1000001 (.calm 0 0 [], "alice".toList, "hi".toList))) 1000002 := by
  have hsize : (loungeRegistry 1000002).historySize = 1000002 := by decide
  rw [replaysLast_iff_scan, scan_run_addCall (loungeCreated_eq 1000002) rfl (by rw [hsize]; omega),
    hsize, historyScan_run_empty (by omega) (by omega) fun m hm => id_pos_of_mem_addedMessages hm,
    addedMessages_length, List.length_replicate]
  omega

end ChatServer
