import ChatServer.Library.Run
import ChatServer.Server.Accounts
import ChatServer.Server.Messages
import ChatServer.Server.Moderation
import ChatServer.Server.Rooms

/-! # Dispatch and runs

A step of the server is one complete event: a new connection, one command
line, the end of a connection, the periodic cleanup of typing states, or the
notice of a shutdown. A run is a list of events, each with its environment.
-/

namespace ChatServer

open World Library

variable (env : Env)

/-- The switch of `process_line` on a connection that is logged in. -/
def dispatch (command : Cmd) (conn : Conn) (me : ClientPtr) (w : World) : World :=
  match command.type with
  | .invalid => w.replyErr conn errInvalidCommand
  | .register => handleRegister env command conn w
  | .login => handleLogin env command conn w
  | .reconnect => handleReconnect env command conn w
  | .create => handleCreate env command conn me w
  | .join => handleJoin command conn me w
  | .leave => handleLeave conn me w
  | .kick => handleKick command conn me w
  | .promote => handlePromote command conn me w
  | .msg => handleMsg env command conn me w
  | .edit => handleEdit env command conn me w
  | .delete => handleDelete env command conn me w
  | .history => handleHistory env command conn me w
  | .pm => handlePm env command conn me w
  | .rooms => handleRooms command conn w
  | .status => handleStatus command conn me w
  | .who => handleWho command conn me w
  | .logout => handleLogout conn me w
  | .logoutAll => handleLogoutAll env conn me w
  | .sessions => handleSessions env conn me w
  | .revokeSession => handleRevokeSession env command conn w
  | .read => handleRead env command conn me w
  | .typing => handleTyping env conn me w
  | .stopTyping => handleStopTyping conn me w
  | .block => handleBlock env command conn me w
  | .unblock => handleUnblock env command conn me w
  | .mute => handleMute env command conn me w
  | .unmute => handleUnmute env command conn me w
  | .ban => handleBan env command conn me w
  | .demote => handleDemote env command conn me w
  | .createPrivate => handleCreatePrivate env command conn me w
  | .invite => handleInvite env command conn me w
  | .accept => handleAccept env command conn me w
  | .decline => handleDecline env command conn me w

/-- The commands a connection may send before it is logged in. -/
def dispatchAnonymous (command : Cmd) (conn : Conn) (w : World) : World :=
  match command.type with
  | .register => handleRegister env command conn w
  | .login => handleLogin env command conn w
  | .reconnect => handleReconnect env command conn w
  | _ => w.replyErr conn errNotRegistered

/-- `process_line`; the result tells whether the connection should be closed. -/
def processLine (conn : Conn) (line : Text) (w : World) : World × Bool :=
  let command := parseLine line
  if command.type = .invalid ∧ command.arg1 = some "HEALTH".toList then
    (w.reply conn (snprintf maxLineLen (lineOf ["OK HEALTH".toList,
      "uptime=".toList ++ decimal (env.now - w.uptimeStart), "active=0".toList])), false)
  else if command.type = .invalid ∧ command.arg1 = some "READY".toList then
    (w.reply conn (snprintf maxLineLen (lineOf [replyOk, "READY ok".toList])), false)
  else match conn.me with
  | none => (dispatchAnonymous env command conn w, false)
  | some me =>
    (dispatch env command conn me w, command.type = .logout ∨ command.type = .logoutAll)

inductive Event where
  | accept (fd : Fd) (ssl : Bool)
  | line (fd : Fd) (text : Text)
  | disconnect (fd : Fd)
  | cleanup
  | shutdown
  deriving DecidableEq, Repr

/--
One event. A line or a disconnect needs an open connection, and `accept`
returns a descriptor that is not in use. The greeting is sent before the SSL
object exists.
-/
def handleEvent (e : Event) (w : World) : World :=
  match e with
  | .accept fd ssl =>
    if fd < 0 ∨ w.conns.get fd ≠ none then w
    else
      let w := w.rawSend [fd] [{ bytes := [if ssl then 'T' else 'P'] }]
      { w with conns := w.conns.set ⟨fd, none, ssl⟩ }
  | .line fd text =>
    match w.conns.get fd with
    | none => w
    | some conn => (processLine env conn text w).1
  | .disconnect fd =>
    match w.conns.get fd with
    | none => w
    | some conn => disconnectCleanup conn w
  | .cleanup => { w with typing := presenceCleanupStale env w.typing }
  | .shutdown =>
    w.rawSend (notifyFds w.reg) [{ bytes := formatErrReply maxLineLen errServerShutdown }]

/-- One step: handle the event, with `out` holding the lines it sends. -/
def step (w : World) (input : Env × Event) : World :=
  handleEvent input.1 input.2 { w with out := [], broadcasts := [] }

end ChatServer
