import ChatServer.Connection.HandleClient
import ChatServer.Core.Env
import ChatServer.Pool.ThreadPool

/-! # The event loop

`run_server` with the epoll instance, the thread pool and the connections. The
main thread takes the events that `epoll_wait` returned one after the other and
submits their connections; a worker runs `handle_client` on the connection of
its job, which re-arms or frees it at its end. EPOLLONESHOT disables an entry
of the interest list once its event has been delivered.

`handle_client` is one step, taken at its end. The position that `strtok` keeps
between its calls is shared by the workers and is no part of the state, so that
two calls whose times overlap are not followed into their lines.
-/

namespace ChatServer

open Library

/-- `conn_t` on the heap: its descriptor, and its buffer. -/
structure LoopConn where
  fd : Fd
  state : ConnState

/-- An entry of the interest list: `ev.data.ptr`, and whether it is enabled. -/
structure Interest where
  conn : ConnPtr
  armed : Bool
  deriving DecidableEq, Repr

/--
The process and its kernel. `events` are those of the last `epoll_wait` that
the loop has not come to, each with whether it has EPOLLRDHUP, EPOLLERR or
EPOLLHUP. `handling` is the argument of the `handle_client` a worker runs.
`faulted` tells whether an event or a job named a freed connection.
-/
structure EventLoop where
  pool : PoolState Unit
  conns : ConnPtr → Option LoopConn
  opened : Fd → Bool
  interest : Fd → Option Interest
  events : List (ConnPtr × Bool)
  handling : ThreadId → Option ConnPtr
  faulted : Bool

inductive LoopEvent where
  /-- `accept`; `conn_create` may fail, and so may `epoll_add`. -/
  | accept (fd : Fd) (conn : Option ConnPtr) (added : Bool)
  /-- `epoll_wait`, with the descriptors that are ready. -/
  | wait (ready : List (Fd × Bool))
  /-- The next of the events, up to the lock of `threadpool_submit`. -/
  | next (mem : Option JobPtr)
  /-- The critical section of `threadpool_submit`. -/
  | submitted (oks : List Bool)
  | maybeShrink
  | destroy
  /-- A step of a worker outside `handle_client`. -/
  | worker (t : ThreadId)
  /-- A worker comes to the end of `handle_client`. -/
  | finish (t : ThreadId) (attempts : List Attempt)
  /-- Bytes of the peer reach the kernel. -/
  | arrive (conn : ConnPtr) (bytes : List Char) (closes : Bool)
  deriving DecidableEq, Repr

namespace EventLoop

/-- `MAX_EVENTS`. -/
def maxEvents : ℕ := 64

/-- The state before the loop of `run_server`. -/
def init (maxThreads n : ℕ) (minThreads : ℤ) : EventLoop where
  pool := .create maxThreads n minThreads
  conns := fun _ => none
  opened := fun _ => false
  interest := fun _ => none
  events := []
  handling := fun _ => none
  faulted := false

/-- The main thread is neither in `threadpool_submit` nor past its loop. -/
def AtLoop (s : EventLoop) : Prop :=
  s.pool.callers () = none ∧ s.pool.destroyer = .notCalled

instance (s : EventLoop) : Decidable s.AtLoop := inferInstanceAs (Decidable (_ ∧ _))

/-- Write to the connection. -/
def put (s : EventLoop) (c : ConnPtr) (conn : LoopConn) : EventLoop :=
  { s with conns := Function.update s.conns c (some conn) }

/-- `conn_create` on a new descriptor, and `epoll_add`, which may fail. -/
def add (s : EventLoop) (fd : Fd) (c : ConnPtr) (added : Bool) : EventLoop :=
  { s with
    conns := Function.update s.conns c (some ⟨fd, .create⟩)
    opened := Function.update s.opened fd true
    interest := Function.update s.interest fd (if added then some ⟨c, true⟩ else none) }

/-- A new connection; the pointer and the descriptor are ones that are not in use. -/
def accept (s : EventLoop) (fd : Fd) (conn : Option ConnPtr) (added : Bool) : EventLoop :=
  match conn with
  | none => s
  | some c => if s.conns c = none ∧ s.opened fd = false then s.add fd c added else s

/-- An event is delivered; EPOLLONESHOT disables its entry. -/
def fire (s : EventLoop) (fd : Fd) (c : ConnPtr) (hup : Bool) : EventLoop :=
  { s with
    interest := Function.update s.interest fd (some ⟨c, false⟩)
    events := s.events ++ [(c, hup)] }

/-- The kernel delivers the event of an enabled entry. -/
def deliver (s : EventLoop) (ready : Fd × Bool) : EventLoop :=
  match s.interest ready.1 with
  | none => s
  | some entry => if entry.armed then s.fire ready.1 entry.conn ready.2 else s

/-- `epoll_rearm`; EPOLL_CTL_MOD needs an entry. -/
def rearm (s : EventLoop) (c : ConnPtr) (fd : Fd) : EventLoop :=
  if s.interest fd = none then s
  else { s with interest := Function.update s.interest fd (some ⟨c, true⟩) }

/-- `threadpool_submit` of the next of the events, up to its lock. -/
def offer (s : EventLoop) (c : ConnPtr) (mem : Option JobPtr) : EventLoop :=
  { s with pool := s.pool.step (.submit () c mem), events := s.events.tail }

/-- The main thread sets `conn->closing` if the event says so. -/
def noteHup (state : ConnState) (hup : Bool) : ConnState :=
  if hup then state.step .hangup else state

/-- An event of a connection, which is submitted, and re-armed if that fails. -/
def next (s : EventLoop) (mem : Option JobPtr) : EventLoop :=
  match s.events.head? with
  | none => s
  | some (c, hup) =>
    match s.conns c with
    | none => { s with faulted := true }
    | some conn =>
      let state := noteHup conn.state hup
      let s := (s.put c ⟨conn.fd, state⟩).offer c mem
      if s.pool.callers () = none ∧ state.closing = false then s.rearm c conn.fd else s

/-- A step of a worker; at the dequeue it goes on to `handle_client(job->conn)`. -/
def workerStep (s : EventLoop) (t : ThreadId) : EventLoop :=
  let pool := s.pool.step (.worker t)
  { s with
    pool
    handling := match pool.workers t with
      | .working job => Function.update s.handling t ((pool.jobs job).map Node.val)
      | _ => s.handling }

def letGo (s : EventLoop) (t : ThreadId) : EventLoop :=
  { s with handling := Function.update s.handling t none }

/-- `close` and `conn_free`; the kernel drops the entry with the descriptor. -/
def free (s : EventLoop) (c : ConnPtr) (fd : Fd) : EventLoop :=
  { s with
    conns := Function.update s.conns c none
    opened := Function.update s.opened fd false
    interest := Function.update s.interest fd none }

/-- `handle_client`, from its first read to `epoll_rearm` or `disconnect_cleanup`. -/
def finish (s : EventLoop) (t : ThreadId) (attempts : List Attempt) : EventLoop :=
  match s.handling t with
  | none => s
  | some c =>
    match s.conns c with
    | none => { s with faulted := true }
    | some conn =>
      let state := conn.state.step (.call attempts)
      let s := (s.put c ⟨conn.fd, state⟩).letGo t
      if state.gone then s.free c conn.fd else s.rearm c conn.fd

/-- Bytes arrive for an open connection. -/
def arrive (s : EventLoop) (c : ConnPtr) (bytes : List Char) (closes : Bool) : EventLoop :=
  match s.conns c with
  | none => s
  | some conn => s.put c { conn with state := conn.state.step (.arrive bytes closes) }

def handle (s : EventLoop) : LoopEvent → EventLoop
  | .accept fd conn added => if s.AtLoop then s.accept fd conn added else s
  | .wait ready =>
    if s.AtLoop ∧ s.events = [] then (ready.take maxEvents).foldl deliver s else s
  | .next mem => if s.AtLoop then s.next mem else s
  | .submitted oks => { s with pool := s.pool.step (.submitLocked () oks) }
  | .maybeShrink => if s.AtLoop then { s with pool := s.pool.step .maybeShrink } else s
  | .destroy =>
    if s.pool.callers () = none ∧ s.events = [] then { s with pool := s.pool.step .destroy } else s
  | .worker t => if s.handling t = none ∧ t < s.pool.created then s.workerStep t else s
  | .finish t attempts => s.finish t attempts
  | .arrive c bytes closes => s.arrive c bytes closes

/-- One event, unless the process has crashed or the pool is gone. -/
def step (s : EventLoop) (e : LoopEvent) : EventLoop := if s.pool.halted then s else s.handle e

end EventLoop

end ChatServer
