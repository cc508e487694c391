import ChatServer.Server.World

/-! # Room commands

CREATE, CREATE_PRIVATE, JOIN, LEAVE, KICK, PROMOTE, ACCEPT, ROOMS and WHO.
-/

namespace ChatServer

open World

variable (env : Env)

/-- The error word for a room that could not be created. -/
def createRoomErr : RoomErr → Text
  | .alreadyExists => errRoomAlreadyExists
  | .invalidClient => errInvalidClient
  | .invalidName => errInvalidRoomName
  | .maxRooms => errMaxRoomCountReached
  | _ => errServerError

/-- The error word of CREATE for a member that could not be added. -/
def createMemberErr : RoomErr → Text
  | .null => errRoomNull
  | .invalidClient => errInvalidClient
  | .maxMembers => errRoomMaxMemberCountReached
  | _ => errServerError

def joinErr : RoomErr → Text
  | .null => errRoomNull
  | .invalidClient => errInvalidClient
  | .maxMembers => errRoomMaxMemberCountReached
  | .alreadyInARoom => errAlreadyInARoom
  | _ => errServerError

/-- The error word of JOIN for the room the client is still in. -/
def joinLeaveErr : RoomErr → Text
  | .null => errRoomNull
  | .invalidClient => errInvalidClient
  | .clientNotFound => errNotInRoom
  | _ => errServerError

def joinFindErr : RoomErr → Text
  | .notFound => errRoomNotFound
  | .invalidName => errInvalidRoomName
  | _ => errServerError

def handleCreate (command : Cmd) (conn : Conn) (me : ClientPtr) (w : World) : World :=
  match command.arg1 with
  | none => w.replyErr conn errInvalidRoomName
  | some roomName =>
    match createRoom env (some roomName) (some me) w.db w.reg with
    | (.ok, room, reg) =>
      match roomAddMember room (some me) reg with
      | (.ok, reg) => { w with reg := reg.setCurrentRoom me room }.replyOk conn okCreated
      | (err, reg) => { w with reg }.replyErr conn (createMemberErr err)
    | (err, _, reg) => { w with reg }.replyErr conn (createRoomErr err)

def handleCreatePrivate (command : Cmd) (conn : Conn) (me : ClientPtr) (w : World) : World :=
  match command.arg1 with
  | none => w.replyErr conn errInvalidRoomName
  | some roomName =>
    match createRoom env (some roomName) (some me) w.db w.reg with
    | (.ok, room, reg) =>
      match roomAddMember room (some me) reg with
      | (.ok, reg) =>
        let name := (w.client me).clientName
        let db := permissionSetRole env roomName name .owner w.db
        let w' := { w with reg := reg.setCurrentRoom me room, db }.replyOk conn okCreatedPrivate
        { w' with db := (dbCreateRoom env roomName name w'.db).2 }
      | (_, reg) => { w with reg }.replyErr conn errServerError
    | (.alreadyExists, _, reg) => { w with reg }.replyErr conn errRoomAlreadyExists
    | (_, _, reg) => { w with reg }.replyErr conn errServerError

/-- The first half of JOIN: out of the room the client is in. -/
def joinLeave (conn : Conn) (me : ClientPtr) (w : World) : World :=
  match (w.client me).currentRoom with
  | none => w
  | some alreadyIn =>
    match roomRemoveMember (some alreadyIn) (some me) w.reg with
    | (.ok, reg) => { w with reg := reg.setCurrentRoom me none }
    | (err, reg) => { w with reg }.replyErr conn (joinLeaveErr err)

/-- Tell a client that it is in the room, replay the history, and tell the others. -/
def welcome (conn : Conn) (me : ClientPtr) (room : RoomPtr) (w : World) : World :=
  ((w.replyOk conn okJoined).sendHistory room conn.fd).notice room (w.client me).clientName
    okJoined conn.fd

def handleJoin (command : Cmd) (conn : Conn) (me : ClientPtr) (w : World) : World :=
  match command.arg1 with
  | none => w.replyErr conn errInvalidRoomName
  | some roomName =>
    let w := joinLeave conn me w
    match findRoom (some roomName) w.reg with
    | (.ok, some room) =>
      match roomAddMember (some room) (some me) w.reg with
      | (.ok, reg) => welcome conn me room { w with reg := reg.setCurrentRoom me (some room) }
      | (err, reg) => { w with reg }.replyErr conn (joinErr err)
    | (err, _) => w.replyErr conn (joinFindErr err)

def handleLeave (conn : Conn) (me : ClientPtr) (w : World) : World :=
  match (w.client me).currentRoom with
  | none => w.replyErr conn errNotInRoom
  | some room =>
    match roomRemoveMember (some room) (some me) w.reg with
    | (.ok, reg) =>
      let w₁ := { w with reg := reg.setCurrentRoom me none }.replyOk conn okLeft
      let w₂ := w₁.notice room (w.client me).clientName okLeft conn.fd
      { w₂ with reg := roomDeleteIfEmpty room w₂.reg }
    | (_, reg) => { w with reg }.replyErr conn errServerError

def handleKick (command : Cmd) (conn : Conn) (me : ClientPtr) (w : World) : World :=
  match (w.client me).currentRoom with
  | none => w.replyErr conn errNotInRoom
  | some room =>
    if (w.room room).adminClient ≠ some me then w.replyErr conn errNotAdmin
    else match command.arg1 with
    | none => w.replyErr conn errInvalidCommand
    | some targetName =>
      if targetName = (w.client me).clientName then w.replyErr conn errCannotKickSelf
      else match (findClient (some targetName) w.reg).2 with
      | none => w.replyErr conn errUnknownUser
      | some target =>
        if (w.client target).currentRoom ≠ some room then w.replyErr conn errUserNotInRoom
        else match roomRemoveMember (some room) (some target) w.reg with
        | (.ok, reg) =>
          let targetFd := (w.client target).socketFd
          let w₁ := { w with reg := reg.setCurrentRoom target none }.rawSend [targetFd]
            [{ bytes := formatErrReply maxLineLen okKicked }]
          let w₂ := (w₁.notice room targetName okKicked targetFd).replyOk conn okKicked
          { w₂ with reg := roomDeleteIfEmpty room w₂.reg }
        | (_, reg) => { w with reg }.replyErr conn errServerError

def handlePromote (command : Cmd) (conn : Conn) (me : ClientPtr) (w : World) : World :=
  match (w.client me).currentRoom with
  | none => w.replyErr conn errNotInRoom
  | some room =>
    if (w.room room).adminClient ≠ some me then w.replyErr conn errNotAdmin
    else match command.arg1 with
    | none => w.replyErr conn errInvalidCommand
    | some targetName =>
      match (findClient (some targetName) w.reg).2 with
      | none => w.replyErr conn errUnknownUser
      | some target =>
        if (w.client target).currentRoom ≠ some room then w.replyErr conn errUserNotInRoom
        else
          let w₁ := { w with reg := w.reg.setAdmin room target }.rawSend
            [(w.client target).socketFd] [{ bytes := formatOkReply maxLineLen okPromoted }]
          w₁.notice room targetName okPromoted (-1)

/-- The first half of ACCEPT: out of the room the client is in, whatever the result. -/
def acceptLeave (me : ClientPtr) (reg : Registry) : Registry :=
  match (reg.clients me).currentRoom with
  | none => reg
  | some old => (roomRemoveMember (some old) (some me) reg).2.setCurrentRoom me none

/-- ACCEPT, which leaves the result of `room_add_member` unread. -/
def handleAccept (command : Cmd) (conn : Conn) (me : ClientPtr) (w : World) : World :=
  match command.arg1 with
  | none => w.replyErr conn errInvalidCommand
  | some roomName =>
    let name := (w.client me).clientName
    if !inviteFind env roomName name w.db then w.replyErr conn errNotInvited
    else
      let w := { w with db := (inviteAccept env roomName name w.db).2 }
      match (findRoom (some roomName) w.reg).2 with
      | none => w.replyErr conn errRoomNotFound
      | some room =>
        let added := (roomAddMember (some room) (some me) (acceptLeave me w.reg)).2
        let reg := added.setCurrentRoom me (some room)
        welcome conn me room { w with reg }

def statusWord : PresenceStatus → Text
  | .away => statusAway
  | .busy => statusBusy
  | .online => statusOnline

/-- The reply to ROOMS. -/
def roomsReply (command : Cmd) (reg : Registry) : ListBuf :=
  listReply replyRooms (reg.roomList.map fun r => ' ' :: (reg.rooms r).roomName) command

def handleRooms (command : Cmd) (conn : Conn) (w : World) : World :=
  w.reply conn (roomsReply command w.reg).text

/-- One entry of the reply to WHO, with a star for the administrator. -/
def whoEntry (reg : Registry) (room : RoomPtr) (m : ClientPtr) : Text :=
  ' ' :: (if (reg.rooms room).adminClient = some m then ['*'] else []) ++
    (reg.clients m).clientName ++ '/' :: statusWord (reg.clients m).status

/-- The reply to WHO. -/
def whoReply (command : Cmd) (room : RoomPtr) (reg : Registry) : ListBuf :=
  listReply replyWho ((reg.rooms room).members.map (whoEntry reg room)) command

def handleWho (command : Cmd) (conn : Conn) (me : ClientPtr) (w : World) : World :=
  match (w.client me).currentRoom with
  | none => w.replyErr conn errNotInRoom
  | some room => w.reply conn (whoReply command room w.reg).text

end ChatServer
