import ChatServer.Server.World

/-! # Account commands

REGISTER, LOGIN, RECONNECT, LOGOUT, LOGOUT_ALL, SESSIONS and REVOKE_SESSION,
and the teardown of a connection.
-/

namespace ChatServer

open World

variable (env : Env)

/-- The error word for a client that could not be created. -/
def registerErr : ClientErr → Text
  | .alreadyExists => errUsernameTaken
  | .invalidName => errInvalidUsername
  | .maxClients => errMaxClientCountReached
  | _ => errServerError

def loginErr : ClientErr → Text
  | .alreadyExists => errUsernameTaken
  | .maxClients => errMaxClientCountReached
  | _ => errServerError

def reconnectErr : ClientErr → Text
  | .maxClients => errMaxClientCountReached
  | _ => errServerError

/-- Issue a session token and report success, with the token if there is one. -/
def grantSession (conn : Conn) (status username : Text) (w : World) : World :=
  match dbCreateSession env username w.db with
  | (some token, db) => { w with db }.reply conn (formatOkSession maxLineLen status token)
  | (none, db) => { w with db }.replyOk conn status

/-- Create the client of a login; a client of the same name is left in place. -/
def replaceClient (fd : Fd) (username : Text) (reg : Registry) :
    ClientErr × Option ClientPtr × Registry :=
  if (findClient (some username) reg).2.isSome then createClientForce env fd username reg
  else createClient env fd username reg

def handleRegister (command : Cmd) (conn : Conn) (w : World) : World :=
  if conn.me ≠ none then w.replyErr conn errAlreadyRegistered
  else match command.arg1, command.arg2 with
  | some username, some password =>
    match dbRegisterUser env username password w.db with
    | (.taken, db) => { w with db }.replyErr conn errUsernameTaken
    | (.error, db) => { w with db }.replyErr conn errServerError
    | (.inserted, db) =>
      if (findClient (some username) w.reg).2.isSome then
        { w with db }.replyErr conn errUsernameTaken
      else match createClient env conn.fd username w.reg with
      | (.ok, me, reg) =>
        grantSession env conn okRegistered username ({ w with db, reg }.setMe conn me)
      | (err, me, reg) => ({ w with db, reg }.setMe conn me).replyErr conn (registerErr err)
  | _, _ => w.replyErr conn errInvalidCommand

def handleLogin (command : Cmd) (conn : Conn) (w : World) : World :=
  if conn.me ≠ none then w.replyErr conn errAlreadyRegistered
  else match command.arg1, command.arg2 with
  | some username, some password =>
    match dbVerifyUser env username password w.db with
    | .unknownUser => w.replyErr conn errUnknownUser
    | .wrongPassword => w.replyErr conn errWrongPassword
    | .error => w.replyErr conn errServerError
    | .ok =>
      match replaceClient env conn.fd username w.reg with
      | (.ok, me, reg) =>
        grantSession env conn okLoggedIn username ({ w with reg }.setMe conn me)
      | (err, _, reg) => ({ w with reg }.setMe conn none).replyErr conn (loginErr err)
  | _, _ => w.replyErr conn errInvalidCommand

def handleReconnect (command : Cmd) (conn : Conn) (w : World) : World :=
  if conn.me ≠ none then w.replyErr conn errAlreadyRegistered
  else match command.arg1 with
  | none => w.replyErr conn errInvalidCommand
  | some token =>
    match dbValidateSession env token (dbCleanupExpiredSessions env w.db).2 with
    | (.notFound, db) => { w with db }.replyErr conn errInvalidToken
    | (.expired, db) => { w with db }.replyErr conn errSessionExpired
    | (.error, db) => { w with db }.replyErr conn errServerError
    | (.ok username, db) =>
      if !dbUserExists env username db then
        { w with db := (dbDeleteSession env token db).2 }.replyErr conn errUnknownUser
      else match replaceClient env conn.fd username w.reg with
      | (.ok, me, reg) =>
        grantSession env conn okReconnected username
          ({ w with reg, db := (dbDeleteSession env token db).2 }.setMe conn me)
      | (err, _, reg) => ({ w with reg, db }.setMe conn none).replyErr conn (reconnectErr err)

/-- Take the client out of its room, tell the others, and drop the room if it is empty. -/
def leaveLastRoom (conn : Conn) (me : ClientPtr) (w : World) : World :=
  match (w.client me).currentRoom with
  | none => w
  | some room =>
    let reg := (roomRemoveMember (some room) (some me) w.reg).2.setCurrentRoom me none
    let w' := { w with reg }.notice room (w.client me).clientName okLeft conn.fd
    { w' with reg := roomDeleteIfEmpty room w'.reg }

def handleLogout (conn : Conn) (me : ClientPtr) (w : World) : World :=
  let w₁ := leaveLastRoom conn me w
  let w₂ := { w₁ with typing := presenceTypingStop (w.client me).clientName w₁.typing }
  let w₃ := w₂.replyOk conn replyLogout
  { w₃ with reg := (deleteClient (some me) w₃.reg).2 }.setMe conn none

def handleLogoutAll (conn : Conn) (me : ClientPtr) (w : World) : World :=
  let w₁ := leaveLastRoom conn me w
  let w₂ := { w₁ with
    typing := presenceTypingStop (w.client me).clientName w₁.typing
    db := (sessionRevokeAll env (w.client me).clientName w₁.db).2 }
  let w₃ := w₂.replyOk conn replyLogout
  { w₃ with reg := (deleteClient (some me) w₃.reg).2 }.setMe conn none

/-- `disconnect_cleanup`, which also closes and frees the connection. -/
def disconnectCleanup (conn : Conn) (w : World) : World :=
  let w₁ := match conn.me with
    | none => w
    | some me =>
      let w := leaveLastRoom conn me w
      { w with reg := (deleteClient (some me) w.reg).2 }
  { w₁ with conns := w₁.conns.remove conn.fd }

/-- The reply to SESSIONS: the count, then the first eight bytes of each token. -/
def sessionsReply (username : Text) (db : Database) : ListBuf :=
  let sessions := sessionListForUser env username maxSessionsPerUser db
  let header := [' '].intercalate [replySessions, decimal sessions.length]
  let entries := sessions.map fun s => ' ' :: s.token.take 8 ++ "...".toList
  (ListBuf.printGuarded entries (ListBuf.print header {})).print ['\n']

def handleSessions (conn : Conn) (me : ClientPtr) (w : World) : World :=
  w.reply conn (sessionsReply env (w.client me).clientName w.db).text

def handleRevokeSession (command : Cmd) (conn : Conn) (w : World) : World :=
  match command.arg1 with
  | none => w.replyErr conn errInvalidCommand
  | some targetToken =>
    match sessionRevoke env targetToken w.db with
    | (.ok, db) => { w with db }.replyOk conn okSent
    | (.notFound, db) => { w with db }.replyErr conn errSessionNotFound
    | (_, db) => { w with db }.replyErr conn errServerError

end ChatServer
