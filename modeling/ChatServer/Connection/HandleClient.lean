import ChatServer.Connection.InPlace
import ChatServer.Library.Lines
import ChatServer.Library.Run

/-! # Reading a connection

`handle_client` on the buffer of one connection: the read loop, the loop over
the complete lines, and the disconnect. The kernel queues what the peer sends;
how much of it one `recv` returns is up to the environment.
-/

namespace ChatServer

open Library

def connBufSize : ℕ := 4096

/--
A connection: `conn->buf`, `conn->buf_len` and `conn->closing`, and the bytes
queued in the kernel, with whether the peer has closed its side. `received`
records the bytes that `recv` has returned, `lines` the lines passed to
`process_line`, and `gone` whether `disconnect_cleanup` has run.
-/
structure ConnState where
  buf : List Char
  bufLen : ℕ
  closing : Bool
  pending : List Char
  peerClosed : Bool
  received : List Char
  lines : List Text
  gone : Bool
  deriving DecidableEq

/--
One `recv` of the read loop: what reaches the kernel just before it, whether
the peer closes its side with it, and what `recv` makes of the queue.
-/
structure Attempt where
  bytes : List Char
  closes : Bool
  /-- At most so many bytes are returned; `none` is an error other than `EAGAIN`. -/
  atMost : Option ℕ
  deriving DecidableEq, Repr

inductive ConnEvent where
  | arrive (bytes : List Char) (closes : Bool)
  /-- `run_server` sees EPOLLRDHUP, EPOLLERR or EPOLLHUP. -/
  | hangup
  | call (attempts : List Attempt)
  deriving DecidableEq, Repr

namespace ConnState

/-- `conn_create`. -/
def create : ConnState where
  buf := List.replicate connBufSize '\x00'
  bufLen := 0
  closing := false
  pending := []
  peerClosed := false
  received := []
  lines := []
  gone := false

/-- The peer sends some bytes, unless it has closed its side. -/
def arrive (s : ConnState) (bytes : List Char) (closes : Bool) : ConnState :=
  if s.peerClosed then s
  else { s with pending := s.pending ++ bytes, peerClosed := closes }

/-- Room that the read loop leaves in the buffer. -/
def space (s : ConnState) : ℕ := connBufSize - 1 - s.bufLen

/-- The bytes at the front of the buffer that are in use. -/
def data (s : ConnState) : List Char := s.buf.take s.bufLen

/-- `recv` writes `n` bytes of the queue behind the data of the buffer. -/
def fill (s : ConnState) (n : ℕ) : ConnState :=
  { s with
    buf := s.data ++ s.pending.take n ++ s.buf.drop (s.bufLen + n)
    bufLen := s.bufLen + n
    pending := s.pending.drop n
    received := s.received ++ s.pending.take n }

/-- The read loop of `handle_client`; the result tells whether it saw a disconnect. -/
def readLoop : ConnState → List Attempt → ConnState × Bool
  | s, [] => (s, false)
  | s, a :: attempts =>
    if s.bufLen < connBufSize - 1 then
      let s := s.arrive a.bytes a.closes
      match a.atMost with
      | none => (s, true)
      | some n =>
        let n := min n (min s.space s.pending.length)
        if 0 < n then readLoop (s.fill n) attempts
        -- an empty queue is the end of the stream once the peer has closed it
        else (s, s.pending = [] ∧ s.peerClosed)
    else (s, false)

/-- `memchr(conn->buf, '\n', conn->buf_len)`. -/
def newline (s : ConnState) : Option ℕ := s.data.findIdx? (· = '\n')

/-- Terminate the line of the given length, process it, and move the rest to the front. -/
def processOne (s : ConnState) (lineLen : ℕ) : ConnState :=
  let buf := s.buf.set lineLen '\x00'
  let buf := if 0 < lineLen ∧ buf[lineLen - 1]? = some '\r' then buf.set (lineLen - 1) '\x00'
    else buf
  let line := cstr buf
  let buf := (parseLineAt buf).2
  let consumed := lineLen + 1
  let remaining := s.bufLen - consumed
  { s with
    buf := if 0 < remaining then (buf.drop consumed).take remaining ++ buf.drop remaining else buf
    bufLen := remaining
    lines := s.lines ++ [line] }

/-- The loop over the complete lines; every line shortens the data. -/
def processLines : ℕ → ConnState → ConnState
  | 0, s => s
  | fuel + 1, s =>
    match s.newline with
    | none => s
    | some lineLen => processLines fuel (s.processOne lineLen)

/-- `disconnect_cleanup`, which frees the connection. -/
def disconnect (s : ConnState) : ConnState := { s with gone := true }

/-- `handle_client`. -/
def handleClient (s : ConnState) (attempts : List Attempt) : ConnState :=
  let (s, disconnected) := if s.closing then (s, true) else s.readLoop attempts
  if disconnected then s.disconnect else processLines s.bufLen s

/-- One event; a connection that is gone has no step. -/
def step (s : ConnState) (e : ConnEvent) : ConnState :=
  if s.gone then s
  else match e with
  | .arrive bytes closes => s.arrive bytes closes
  | .hangup => { s with closing := true }
  | .call attempts => s.handleClient attempts

end ConnState

/-- What a line of the stream reads as: a CR at its end dropped, up to the first NUL. -/
def lineText (line : List Char) : Text :=
  cstr (if line.getLast? = some '\r' then line.dropLast else line)

end ChatServer
