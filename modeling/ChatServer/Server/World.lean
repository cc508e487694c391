import ChatServer.Presence.Typing
import ChatServer.Protocol.ListReply
import ChatServer.Protocol.Parse
import ChatServer.Registry.History
import ChatServer.Store.Moderation

/-! # The state of the server

The registry, the database, the typing table, the open connections, and what
the current event has sent: the lines, and the strings that it handed to
`room_broadcast`, be there somebody to receive them or not. A line leaves either
through the connection's own send function or as a raw send on a descriptor.
-/

namespace ChatServer

/-- `conn_t`; `ssl` tells whether the connection has an SSL object. -/
structure Conn where
  fd : Fd
  me : Option ClientPtr
  ssl : Bool
  deriving DecidableEq, Repr

/-- The open connections by descriptor. -/
structure Conns where
  get : Fd → Option Conn
  fd_eq : ∀ fd conn, get fd = some conn → conn.fd = fd

namespace Conns

def empty : Conns := ⟨fun _ => none, by simp⟩

def set (conns : Conns) (conn : Conn) : Conns where
  get := Function.update conns.get conn.fd (some conn)
  fd_eq := by
    intro fd conn' h
    rcases eq_or_ne fd conn.fd with rfl | hne
    · simp only [Function.update_self, Option.some.injEq] at h
      rw [h]
    · rw [Function.update_of_ne hne] at h
      exact conns.fd_eq fd conn' h

def remove (conns : Conns) (fd : Fd) : Conns where
  get := Function.update conns.get fd none
  fd_eq := by
    intro fd' conn h
    rcases eq_or_ne fd' fd with rfl | hne
    · simp at h
    · rw [Function.update_of_ne hne] at h
      exact conns.fd_eq fd' conn h

end Conns

inductive Channel where
  | sslWrite | rawSend
  deriving DecidableEq, Repr

structure Output where
  fd : Fd
  channel : Channel
  line : Line
  deriving DecidableEq, Repr

structure World where
  reg : Registry
  db : Database
  typing : List TypingState
  uptimeStart : ℤ
  conns : Conns
  out : List Output
  broadcasts : List Text

/-- The state after start-up. -/
def World.init (cfg : Config) (db : Database) (uptimeStart : ℤ) : World :=
  ⟨registryInit cfg, db, [], uptimeStart, .empty, [], []⟩

/-- The channel `conn_send` uses. -/
def Conn.channel (conn : Conn) : Channel := if conn.ssl then .sslWrite else .rawSend

namespace World

/-- Append lines sent. -/
def emit (outs : List Output) (w : World) : World := { w with out := w.out ++ outs }

/-- `conn_send` of lines. -/
def connSend (conn : Conn) (lines : List Line) (w : World) : World :=
  w.emit (lines.map (⟨conn.fd, conn.channel, ·⟩))

/-- `conn_send` of a reply. -/
def reply (conn : Conn) (bytes : Text) (w : World) : World := w.connSend conn [{ bytes }]

def replyErr (conn : Conn) (errCode : Text) (w : World) : World :=
  w.reply conn (formatErrReply maxLineLen errCode)

def replyOk (conn : Conn) (status : Text) (w : World) : World :=
  w.reply conn (formatOkReply maxLineLen status)

/-- `send` of lines on each of the descriptors. -/
def rawSend (fds : List Fd) (lines : List Line) (w : World) : World :=
  w.emit (fds.flatMap fun fd => lines.map (⟨fd, .rawSend, ·⟩))

/-- `room_broadcast`. -/
def broadcast (room : RoomPtr) (line : Line) (excludeFd : Fd) (w : World) : World :=
  { w with broadcasts := w.broadcasts ++ [line.bytes] }.rawSend
    (broadcastFds room excludeFd w.reg) [line]

/-- `room_broadcast` of a presence notice. -/
def notice (room : RoomPtr) (user action : Text) (excludeFd : Fd) (w : World) : World :=
  w.broadcast room { bytes := formatNotice maxLineLen user action (w.reg.rooms room).roomName }
    excludeFd

/-- `room_send_history`. -/
def sendHistory (room : RoomPtr) (fd : Fd) (w : World) : World :=
  w.rawSend [fd] (historyLines (w.reg.rooms room))

/-- Assign `conn->me`. -/
def setMe (conn : Conn) (me : Option ClientPtr) (w : World) : World :=
  { w with conns := w.conns.set { conn with me } }

/-- The client object a pointer refers to. -/
def client (w : World) (c : ClientPtr) : Client := w.reg.clients c

/-- The room object a pointer refers to. -/
def room (w : World) (r : RoomPtr) : Room := w.reg.rooms r

section Emit

variable (w : World) (outs : List Output) (conn : Conn) (lines : List Line) (text : Text)
  (fds : List Fd) (r : RoomPtr) (line : Line) (fd : Fd)

@[simp] theorem emit_reg : (w.emit outs).reg = w.reg := rfl

@[simp] theorem emit_db : (w.emit outs).db = w.db := rfl

@[simp] theorem emit_conns : (w.emit outs).conns = w.conns := rfl

@[simp] theorem emit_out : (w.emit outs).out = w.out ++ outs := rfl

@[simp] theorem emit_broadcasts : (w.emit outs).broadcasts = w.broadcasts := rfl

@[simp] theorem connSend_eq :
    w.connSend conn lines = w.emit (lines.map (⟨conn.fd, conn.channel, ·⟩)) := rfl

@[simp] theorem reply_eq :
    w.reply conn text = w.emit [⟨conn.fd, conn.channel, { bytes := text }⟩] := rfl

@[simp] theorem replyErr_eq :
    w.replyErr conn text = w.reply conn (formatErrReply maxLineLen text) := rfl

@[simp] theorem replyOk_eq :
    w.replyOk conn text = w.reply conn (formatOkReply maxLineLen text) := rfl

@[simp] theorem rawSend_eq :
    w.rawSend fds lines = w.emit (fds.flatMap fun fd => lines.map (⟨fd, .rawSend, ·⟩)) := rfl

@[simp] theorem broadcast_eq : w.broadcast r line fd =
    { w with broadcasts := w.broadcasts ++ [line.bytes] }.emit
      ((broadcastFds r fd w.reg).map (⟨·, .rawSend, line⟩)) := by
  simp [broadcast, List.map_eq_flatMap]

@[simp] theorem sendHistory_eq : w.sendHistory r fd =
    w.emit ((historyLines (w.reg.rooms r)).map (⟨fd, .rawSend, ·⟩)) := by
  simp [sendHistory]

end Emit

end World

end ChatServer
