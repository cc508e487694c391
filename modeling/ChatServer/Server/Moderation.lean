import ChatServer.Server.World

/-! # Moderation commands

BLOCK, UNBLOCK, MUTE, UNMUTE, BAN, DEMOTE, INVITE and DECLINE.
-/

namespace ChatServer

open World

variable (env : Env)

/-- The reply to a command that only changes the database. -/
def replyResult (conn : Conn) (status errCode : Text) (result : Bool × Database) (w : World) :
    World :=
  if result.1 then { w with db := result.2 }.replyOk conn status
  else { w with db := result.2 }.replyErr conn errCode

def handleBlock (command : Cmd) (conn : Conn) (me : ClientPtr) (w : World) : World :=
  match command.arg1 with
  | none => w.replyErr conn errInvalidCommand
  | some target =>
    replyResult conn okBlocked errServerError (blockAdd env (w.client me).clientName target w.db) w

def handleUnblock (command : Cmd) (conn : Conn) (me : ClientPtr) (w : World) : World :=
  match command.arg1 with
  | none => w.replyErr conn errInvalidCommand
  | some target =>
    replyResult conn okUnblocked errUserNotBlocked
      (blockRemove env (w.client me).clientName target w.db) w

def handleMute (command : Cmd) (conn : Conn) (me : ClientPtr) (w : World) : World :=
  match (w.client me).currentRoom with
  | none => w.replyErr conn errNotInRoom
  | some room =>
    let roomName := (w.room room).roomName
    let name := (w.client me).clientName
    if !permissionCheck env roomName name .mute w.db then w.replyErr conn errNotAdmin
    else match command.arg1 with
    | none => w.replyErr conn errInvalidCommand
    | some target =>
      replyResult conn okMuted errServerError (muteAdd env roomName name target w.db) w

/-- UNMUTE, the only room command here without a permission check. -/
def handleUnmute (command : Cmd) (conn : Conn) (me : ClientPtr) (w : World) : World :=
  match (w.client me).currentRoom with
  | none => w.replyErr conn errNotInRoom
  | some room =>
    match command.arg1 with
    | none => w.replyErr conn errInvalidCommand
    | some target =>
      replyResult conn okUnmuted errUserNotMuted
        (muteRemove env (w.room room).roomName target w.db) w

/-- Put the banned user's client out of the room, if the first client of that name is in it. -/
def evictBanned (room : RoomPtr) (target : Text) (w : World) : World :=
  match (findClient (some target) w.reg).2 with
  | none => w
  | some banned =>
    if (w.client banned).currentRoom = some room then
      let reg := (roomRemoveMember (some room) (some banned) w.reg).2.setCurrentRoom banned none
      { w with reg }.rawSend [(w.client banned).socketFd]
        [{ bytes := formatErrReply maxLineLen okBanned }]
    else w

def handleBan (command : Cmd) (conn : Conn) (me : ClientPtr) (w : World) : World :=
  match (w.client me).currentRoom with
  | none => w.replyErr conn errNotInRoom
  | some room =>
    let roomName := (w.room room).roomName
    let name := (w.client me).clientName
    if !permissionCheck env roomName name .ban w.db then w.replyErr conn errNotRoomOwner
    else match command.arg1 with
    | none => w.replyErr conn errInvalidCommand
    | some target =>
      match banAdd env roomName name target w.db with
      | (true, db) => (evictBanned room target { w with db }).replyOk conn okBanned
      | (false, db) => { w with db }.replyErr conn errServerError

def handleDemote (command : Cmd) (conn : Conn) (me : ClientPtr) (w : World) : World :=
  match (w.client me).currentRoom with
  | none => w.replyErr conn errNotInRoom
  | some room =>
    let roomName := (w.room room).roomName
    let name := (w.client me).clientName
    if !permissionCheck env roomName name .demote w.db then w.replyErr conn errNotRoomOwner
    else match command.arg1 with
    | none => w.replyErr conn errInvalidCommand
    | some target =>
      if target = name then w.replyErr conn errCannotDemoteself
      else
        let targetRole := permissionGetRole env roomName target w.db
        if targetRole.rank ≤ RoomRole.member.rank then w.replyErr conn errInvalidRole
        else
          { w with db := permissionSetRole env roomName target targetRole.lower w.db }.replyOk
            conn okDemoted

def handleInvite (command : Cmd) (conn : Conn) (me : ClientPtr) (w : World) : World :=
  match (w.client me).currentRoom with
  | none => w.replyErr conn errNotInRoom
  | some room =>
    let roomName := (w.room room).roomName
    let name := (w.client me).clientName
    if !permissionCheck env roomName name .invite w.db then w.replyErr conn errNotAdmin
    else match command.arg1 with
    | none => w.replyErr conn errInvalidCommand
    | some target =>
      if !dbUserExists env target w.db then w.replyErr conn errUnknownUser
      else match inviteCreate env roomName name target w.db with
      | (true, db) =>
        let w := { w with db }.replyOk conn okInvited
        match (findClient (some target) w.reg).2 with
        | none => w
        | some invitee =>
          w.rawSend [(w.client invitee).socketFd]
            [{ bytes := snprintf maxLineLen (lineOf [replyInvite, name, roomName]) }]
      | (false, db) => { w with db }.replyErr conn errInviteFailed

def handleDecline (command : Cmd) (conn : Conn) (me : ClientPtr) (w : World) : World :=
  match command.arg1 with
  | none => w.replyErr conn errInvalidCommand
  | some roomName =>
    { w with db := (inviteDecline env roomName (w.client me).clientName w.db).2 }.replyOk
      conn okInviteDeclined

end ChatServer
