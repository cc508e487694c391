import ChatServer.Membership.Entry

/-! # Raw sends

Which descriptors each command reaches with a raw `send`, past the checks the
command makes. Replies to the sender of a line go through its connection.
-/

namespace ChatServer

open World

/-- Lines to the given descriptors go through SSL objects. -/
def SslOnly (T : Fd → Prop) (outs : List Output) : Prop :=
  ∀ o ∈ outs, T o.fd → o.channel = .sslWrite

section Recipients

variable (env : Env) (command : Cmd) (conn : Conn) (me : ClientPtr) (w : World)

/-- The other connections of the room a client is in. -/
def roomOthers : List Fd :=
  match (w.client me).currentRoom with
  | none => []
  | some room => broadcastFds room conn.fd w.reg

/-- A client by name, if it is in a given room. -/
def clientInRoom (room : RoomPtr) (name : Text) : Option ClientPtr :=
  (findClient (some name) w.reg).2.filter fun c => (w.client c).currentRoom = some room

/-- A replay to the connection itself, and the notice to the others of the room. -/
def welcomeFds (room : RoomPtr) : List Fd :=
  (if (w.room room).history.stored = 0 then [] else [conn.fd]) ++ broadcastFds room conn.fd w.reg

def rawJoin : List Fd :=
  match roomJoined command me w with
  | none => []
  | some room => welcomeFds conn w room

def rawAccept : List Fd :=
  match roomAccepted env command me w with
  | none => []
  | some room => welcomeFds conn w room

def rawLeave : List Fd :=
  match (w.client me).currentRoom with
  | none => []
  | some room => if me ∈ (w.room room).members then broadcastFds room conn.fd w.reg else []

def rawKick : List Fd :=
  match (w.client me).currentRoom, command.arg1 with
  | some room, some name =>
    if (w.room room).adminClient = some me ∧ name ≠ (w.client me).clientName then
      match clientInRoom w room name with
      | none => []
      | some target =>
        if target ∈ (w.room room).members then
          (w.client target).socketFd :: broadcastFds room (w.client target).socketFd w.reg
        else []
    else []
  | _, _ => []

def rawPromote : List Fd :=
  match (w.client me).currentRoom, command.arg1 with
  | some room, some name =>
    if (w.room room).adminClient = some me then
      match clientInRoom w room name with
      | none => []
      | some target => (w.client target).socketFd :: broadcastFds room (-1) w.reg
    else []
  | _, _ => []

def rawBan : List Fd :=
  match (w.client me).currentRoom, command.arg1 with
  | some room, some name =>
    if permissionCheck env (w.room room).roomName (w.client me).clientName .ban w.db ∧
        env.sql .banAdd = .done then
      (clientInRoom w room name).toList.map fun c => (w.client c).socketFd
    else []
  | _, _ => []

def rawInvite : List Fd :=
  match (w.client me).currentRoom, command.arg1 with
  | some room, some name =>
    if permissionCheck env (w.room room).roomName (w.client me).clientName .invite w.db ∧
        dbUserExists env name w.db ∧ env.sql .inviteCreate = .done then
      (findClient (some name) w.reg).2.toList.map fun c => (w.client c).socketFd
    else []
  | _, _ => []

def rawMsg : List Fd :=
  if (rateLimitCheck env me w.reg).1 ∧ command.arg1.getD [] ≠ [] then roomOthers conn me w else []

def rawEdit : List Fd :=
  match (w.client me).currentRoom, command.arg1, command.arg2 with
  | some room, some idStr, some text =>
    if text ≠ [] ∧ 0 < atoll idStr ∧ (roomEditMessage env room (atoll idStr)
        (w.client me).clientName text w.db w.reg).1 = .ok then
      broadcastFds room (-1) w.reg
    else []
  | _, _, _ => []

def rawDelete : List Fd :=
  match (w.client me).currentRoom, command.arg1 with
  | some room, some idStr =>
    if 0 < atoll idStr ∧ (roomDeleteMessage env room (atoll idStr) (w.client me).clientName
        ((w.room room).adminClient = some me) w.db w.reg).1 = .ok then
      broadcastFds room (-1) w.reg
    else []
  | _, _ => []

def rawPm : List Fd :=
  match command.arg1 with
  | none => []
  | some name =>
    if command.arg2.getD [] ≠ [] ∧ (rateLimitCheck env me w.reg).1 then
      (findClient (some name) w.reg).2.toList.map fun c => (w.client c).socketFd
    else []

def rawRead : List Fd :=
  match command.arg1 with
  | none => []
  | some idStr =>
    if (receiptMarkRead env (atoll idStr) (w.client me).clientName w.db).1 then
      roomOthers conn me w
    else []

def rawStatus : List Fd :=
  match command.arg1.bind parseStatus with
  | none => []
  | some status => if (w.client me).status = status then [] else roomOthers conn me w

def rawTyping : List Fd :=
  if (presenceTypingStart env (w.client me).clientName w.typing).1 then roomOthers conn me w else []

/-- The descriptors a client's command reaches with a raw send. -/
def rawOfCommand : List Fd :=
  match command.type with
  | .join => rawJoin command conn me w
  | .leave => rawLeave conn me w
  | .kick => rawKick command me w
  | .promote => rawPromote command me w
  | .msg => rawMsg env command conn me w
  | .edit => rawEdit env command me w
  | .delete => rawDelete env command me w
  | .pm => rawPm env command me w
  | .status => rawStatus command conn me w
  | .logout => roomOthers conn me w
  | .logoutAll => roomOthers conn me w
  | .read => rawRead env command conn me w
  | .typing => rawTyping env conn me w
  | .stopTyping => roomOthers conn me w
  | .ban => rawBan env command me w
  | .invite => rawInvite env command me w
  | .accept => rawAccept env command conn me w
  | _ => []

/-- The descriptors an event reaches with a raw send, but for the greeting of a new connection. -/
def rawFds (e : Event) : List Fd :=
  match e with
  | .line fd text =>
    match w.conns.get fd with
    | none => []
    | some conn =>
      match conn.me with
      | none => []
      | some me => rawOfCommand env (parseLine text) conn me w
  | .disconnect fd =>
    match w.conns.get fd with
    | none => []
    | some conn =>
      match conn.me with
      | none => []
      | some me => roomOthers conn me w
  | .shutdown => notifyFds w.reg
  | _ => []

end Recipients

end ChatServer
