import ChatServer.Server.World

/-! # Message and presence commands

MSG, EDIT, DELETE, HISTORY, PM, READ, STATUS, TYPING and STOP_TYPING.
-/

namespace ChatServer

open World

variable (env : Env)

def handleMsg (command : Cmd) (conn : Conn) (me : ClientPtr) (w : World) : World :=
  match (w.client me).currentRoom with
  | none => w.replyErr conn errNotInRoom
  | some room =>
    match rateLimitCheck env me w.reg with
    | (false, reg) => { w with reg }.replyErr conn errRateLimited
    | (true, reg) =>
      match command.arg1 with
      | none => { w with reg }.replyErr conn errEmptyMessage
      | some text =>
        if text = [] then { w with reg }.replyErr conn errEmptyMessage
        else
          let name := (w.client me).clientName
          let (msgId, db, reg) := roomAddHistory env room name text w.db reg
          let bytes :=
            if 0 < msgId then formatMsgReplyId maxLineLen msgId name text
            else formatMsgReply maxLineLen name text
          ({ w with db, reg }.broadcast room ⟨bytes, some (.live room)⟩ conn.fd).replyOk conn okSent

/-- The error word for an edit or a deletion that was refused. -/
def changeErr : ChangeResult → Text
  | .notFound => errMsgNotFound
  | .alreadyDeleted => errMsgDeleted
  | _ => errNotAuthorized

def handleEdit (command : Cmd) (conn : Conn) (me : ClientPtr) (w : World) : World :=
  match (w.client me).currentRoom with
  | none => w.replyErr conn errNotInRoom
  | some room =>
    match command.arg1, command.arg2 with
    | some idStr, some newText =>
      if newText = [] then w.replyErr conn errInvalidCommand
      else
        let msgId := atoll idStr
        if msgId ≤ 0 then w.replyErr conn errMsgNotFound
        else match roomEditMessage env room msgId (w.client me).clientName newText w.db w.reg with
        | (.ok, db, reg) =>
          ({ w with db, reg }.broadcast room
            { bytes := formatEditedReply maxLineLen msgId newText } (-1)).replyOk conn okSent
        | (err, db, reg) => { w with db, reg }.replyErr conn (changeErr err)
    | _, _ => w.replyErr conn errInvalidCommand

def handleDelete (command : Cmd) (conn : Conn) (me : ClientPtr) (w : World) : World :=
  match (w.client me).currentRoom with
  | none => w.replyErr conn errNotInRoom
  | some room =>
    match command.arg1 with
    | none => w.replyErr conn errInvalidCommand
    | some idStr =>
      let msgId := atoll idStr
      if msgId ≤ 0 then w.replyErr conn errMsgNotFound
      else
        let isAdmin : Bool := (w.room room).adminClient = some me
        match roomDeleteMessage env room msgId (w.client me).clientName isAdmin w.db w.reg with
        | (.ok, db, reg) =>
          ({ w with db, reg }.broadcast room
            { bytes := formatDeletedReply maxLineLen msgId } (-1)).replyOk conn okSent
        | (err, db, reg) => { w with db, reg }.replyErr conn (changeErr err)

/-- The number of messages HISTORY asks for. -/
def historyLimit (limitStr : Option Text) : ℕ :=
  let limit := match limitStr with
    | some s => atoi s
    | none => 20
  if limit ≤ 0 then 20 else if 100 < limit then 100 else limit.toNat

/-- The lines HISTORY sends for a room name. -/
def historyReply (roomName : Text) (cursor : ℤ) (limit : ℕ) (db : Database) : List Line :=
  let (hist, nextCursor) := dbLoadHistoryBefore env roomName cursor limit db
  let header := lineOf [replyHistory, roomName, decimal nextCursor, decimal hist.length]
  let footer := lineOf ["END_HISTORY".toList, roomName, decimal nextCursor]
  let line (m : Message) :=
    lineOf [replyMsg, decimal m.id, m.sender, if m.deleted then "[deleted]".toList else m.text]
  [{ bytes := snprintf maxLineLen header }] ++
    (hist.map fun m => ⟨snprintf maxLineLen (line m), some (.stored roomName m.id)⟩) ++
    [{ bytes := snprintf maxLineLen footer }]

def handleHistory (command : Cmd) (conn : Conn) (me : ClientPtr) (w : World) : World :=
  match command.arg1.or ((w.client me).currentRoom.map fun r => (w.room r).roomName) with
  | none => w.replyErr conn errNotInRoom
  | some roomName =>
    let cursor := (command.arg2.map atoll).getD 0
    match (findRoom (some roomName) w.reg).2 with
    | none => w.replyErr conn errRoomNotFound
    | some _ =>
      w.connSend conn (historyReply env roomName cursor (historyLimit command.arg3) w.db)

def handlePm (command : Cmd) (conn : Conn) (me : ClientPtr) (w : World) : World :=
  match command.arg1 with
  | none => w.replyErr conn errInvalidCommand
  | some targetName =>
    match command.arg2 with
    | none => w.replyErr conn errEmptyMessage
    | some text =>
      if text = [] then w.replyErr conn errEmptyMessage
      else match rateLimitCheck env me w.reg with
      | (false, reg) => { w with reg }.replyErr conn errRateLimited
      | (true, reg) =>
        match (findClient (some targetName) reg).2 with
        | none => { w with reg }.replyErr conn errUnknownUser
        | some target =>
          ({ w with reg }.rawSend [(w.client target).socketFd]
            [{ bytes := formatPmReply maxLineLen (w.client me).clientName text }]).replyOk
              conn okSent

def handleRead (command : Cmd) (conn : Conn) (me : ClientPtr) (w : World) : World :=
  match command.arg1 with
  | none => w.replyErr conn errInvalidCommand
  | some idStr =>
    let msgId := atoll idStr
    if msgId ≤ 0 then w.replyErr conn errMsgNotFound
    else
      let name := (w.client me).clientName
      match receiptMarkRead env msgId name w.db with
      | (true, db) =>
        let w := { w with db }
        let receipt := snprintf maxLineLen (lineOf [replyReadReceipt, decimal msgId, name])
        let w := match (w.client me).currentRoom with
          | none => w
          | some room => w.broadcast room { bytes := receipt } conn.fd
        w.replyOk conn okSent
      | (false, db) => { w with db }.replyErr conn errServerError

/-- The status a word of STATUS names. -/
def parseStatus (s : Text) : Option PresenceStatus :=
  if s = statusOnline then some .online
  else if s = statusAway then some .away
  else if s = statusBusy then some .busy
  else none

def handleStatus (command : Cmd) (conn : Conn) (me : ClientPtr) (w : World) : World :=
  match command.arg1 with
  | none => w.replyErr conn errInvalidCommand
  | some newStatus =>
    match parseStatus newStatus with
    | none => w.replyErr conn errInvalidStatus
    | some status =>
      let prev := (w.client me).status
      let reg := w.reg.modifyClient me fun client => { client with status }
      let w := { w with reg }.replyOk conn okStatusSet
      match (w.client me).currentRoom with
      | none => w
      | some room =>
        if prev = status then w else w.notice room (w.client me).clientName newStatus conn.fd

def handleTyping (conn : Conn) (me : ClientPtr) (w : World) : World :=
  match (w.client me).currentRoom with
  | none => w.replyErr conn errNotInRoom
  | some room =>
    let name := (w.client me).clientName
    let (shouldBroadcast, typing) := presenceTypingStart env name w.typing
    let w := { w with typing }
    let w := if shouldBroadcast then
        w.broadcast room { bytes := snprintf maxLineLen (lineOf [replyTyping, name]) } conn.fd
      else w
    w.replyOk conn okSent

def handleStopTyping (conn : Conn) (me : ClientPtr) (w : World) : World :=
  let name := (w.client me).clientName
  let w := { w with typing := presenceTypingStop name w.typing }
  let w := match (w.client me).currentRoom with
    | none => w
    | some room =>
      w.broadcast room { bytes := snprintf maxLineLen (lineOf [replyStopTyping, name]) } conn.fd
  w.replyOk conn okSent

end ChatServer
