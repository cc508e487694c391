import ChatServer.Protocol.Format
import ChatServer.Registry.Basic

/-! # Room history

The circular message buffer of a room, mirrored in the table `messages`.
-/

namespace ChatServer

open Library

/-- What a line discloses: a message of a live room, or one stored under a room name. -/
inductive Carried where
  | live (room : RoomPtr)
  | stored (roomName : Text) (id : ℤ)
  deriving DecidableEq, Repr

/-- A line to be sent, with the message it carries. -/
structure Line where
  bytes : Text
  carries : Option Carried := none
  deriving DecidableEq, Repr

/-- The value of an `int` expression, wrapping at 32 bits. -/
def wrapInt (n : ℤ) : ℤ := Int.bmod n (2 ^ 32)

/-- The array index of the entry at a position counted from the oldest one. -/
def historyIndex (h : RingBuffer Message) (i : ℕ) : ℤ :=
  if h.count < h.cap then i else (wrapInt (h.start + i)).tmod h.cap

/-- Read a slot; an index below the array yields no message. -/
def historyRead (h : RingBuffer Message) (idx : ℤ) : Option Message :=
  if 0 ≤ idx then some (h.slots idx.toNat) else none

/-- The entries a scan of the buffer visits, oldest first. -/
def historyScan (h : RingBuffer Message) : List (Option Message) :=
  (List.range h.stored).map fun i => historyRead h (historyIndex h i)

/-- The index of the first entry visited that has an id. -/
def historyFind (h : RingBuffer Message) (msgId : ℤ) : Option ℤ :=
  ((List.range h.stored).map (historyIndex h)).find? fun idx =>
    ((historyRead h idx).map Message.id) = some msgId

def roomFindMessage (room : Room) (msgId : ℤ) : Option Message :=
  if msgId ≤ 0 then none
  else (historyScan room.history).reduceOption.find? fun m => m.id = msgId

variable (env : Env)

/-- The message `room_add_history` stores. -/
def newMessage (msgId : ℤ) (sender text : Text) : Message where
  id := msgId
  sender := strncpy maxUsernameLen sender
  text := strncpy maxTextLen text
  timestamp := env.now
  deleted := false
  editedAt := 0

/-- Store a message in the buffer; the running count returns to the capacity at its limit. -/
def addMessage (h : RingBuffer Message) (m : Message) : RingBuffer Message :=
  h.write m (if h.count < 1000000 then h.count + 1 else h.cap)

/-- `room_add_history`: the row id, or a synthetic one when the row cannot be saved. -/
def roomAddHistory (room : RoomPtr) (sender text : Text) (db : Database) (reg : Registry) :
    ℤ × Database × Registry :=
  let saved := dbSaveMessage env (reg.rooms room).roomName sender text db
  let msgId := if saved.1 ≤ 0 then env.now * 1000000 + (env.rand % 1000000 : ℕ) else saved.1
  if (reg.rooms room).history.cap = 0 then (msgId, saved.2, reg)
  else
    let message := newMessage env msgId sender text
    (msgId, saved.2, reg.modifyRoom room fun room =>
      { room with history := addMessage room.history message })

/-- The line replayed for a stored message. -/
def replayLine (m : Message) : Text :=
  if m.deleted then
    snprintf maxLineLen (lineOf [replyMsg, decimal m.id, m.sender, "[deleted]".toList])
  else formatMsgReplyId maxLineLen m.id m.sender m.text

/-- The lines `room_send_history` sends. -/
def historyLines (room : Room) : List Line :=
  if room.history.stored = 0 then []
  else
    [⟨snprintf maxLineLen (lineOf ["NOTICE history START".toList, room.roomName]), none⟩] ++
    ((historyScan room.history).reduceOption.map fun m =>
      ⟨replayLine m, some (.stored room.roomName m.id)⟩) ++
    [⟨snprintf maxLineLen (lineOf ["NOTICE history END".toList, room.roomName]), none⟩]

/-- The results 0, -1, -2 and -3 of an edit or a deletion. -/
inductive ChangeResult where
  | ok | notFound | alreadyDeleted | notAuthor
  deriving DecidableEq, Repr

/-- The checks and the update of the buffer that an edit and a deletion share. -/
def changeMessage (h : RingBuffer Message) (msgId : ℤ) (mayChange : Message → Bool)
    (change : Message → Message) : ChangeResult × RingBuffer Message :=
  match historyFind h msgId with
  | none => (.notFound, h)
  | some idx =>
    let m := h.slots idx.toNat
    if m.deleted then (.alreadyDeleted, h)
    else if !mayChange m then (.notAuthor, h)
    else (.ok, h.set idx.toNat (change m))

def roomEditMessage (room : RoomPtr) (msgId : ℤ) (requester newText : Text) (db : Database)
    (reg : Registry) : ChangeResult × Database × Registry :=
  match changeMessage (reg.rooms room).history msgId (fun m => m.sender = requester)
    (fun m => { m with text := strncpy maxTextLen newText, editedAt := env.now }) with
  | (.ok, history) =>
    (.ok, dbEditMessage env msgId newText db, reg.modifyRoom room fun room => { room with history })
  | (err, _) => (err, db, reg)

def roomDeleteMessage (room : RoomPtr) (msgId : ℤ) (requester : Text) (isAdmin : Bool)
    (db : Database) (reg : Registry) : ChangeResult × Database × Registry :=
  match changeMessage (reg.rooms room).history msgId (fun m => m.sender = requester ∨ isAdmin)
    (fun m => { m with deleted := true, text := strncpy maxTextLen "[deleted]".toList }) with
  | (.ok, history) =>
    (.ok, dbDeleteMessage env msgId db, reg.modifyRoom room fun room => { room with history })
  | (err, _) => (err, db, reg)

end ChatServer
