import Mathlib.Data.Int.Notation
import ChatServer.Library.LinkedQueue
import ChatServer.Library.Run

/-! # The thread pool

The pool of `threadpool.c` and everyone who takes its lock: the calls of
`threadpool_submit` and `threadpool_maybe_shrink`, one call of
`threadpool_destroy`, and the worker threads. A step is one critical section,
or what one of them does without the lock before its next one. A wait on the
condition variable may end at any step.
-/

namespace ChatServer

open Library

abbrev JobPtr := ℕ
abbrev ThreadId := ℕ
abbrev ConnPtr := ℕ

/-- `job_t`. -/
abbrev Job := Node JobPtr ConnPtr

/-- `threadpool_t`; the array `threads` holds the handles `pthread_create` returned. -/
structure ThreadPool where
  threads : ℤ → Option ThreadId
  threadCount : ℤ
  maxThreads : ℤ
  minThreads : ℤ
  head : Option JobPtr
  tail : Option JobPtr
  queueSize : ℤ
  idleCount : ℤ
  markedExits : ℤ
  shutdown : Bool

/--
Where a worker is: about to lock at the top of its loop, in
`pthread_cond_wait`, in `handle_client` with a job, about to lock again because
it has seen an exit marked, or returned.
-/
inductive WorkerPhase where
  | ready
  | waiting
  | working (job : JobPtr)
  | leaving
  | exited
  deriving DecidableEq, Repr

/-- Where the call of `threadpool_destroy` is: `joining n i` is about to join `threads[i]`. -/
inductive DestroyPhase where
  | notCalled
  | flagged
  | joining (n i : ℤ)
  | released
  deriving DecidableEq, Repr

/--
The pool, the jobs on the heap, and its users. The threads are numbered as they
are created. `callers` are the calls of `threadpool_submit` that hold a job and
do not have the lock yet. `accepted` and `dequeued` record the connections
whose jobs were queued and taken from the queue.
-/
structure PoolState (ι : Type*) where
  pool : ThreadPool
  jobs : JobPtr → Option Job
  workers : ThreadId → WorkerPhase
  created : ThreadId
  callers : ι → Option JobPtr
  destroyer : DestroyPhase
  accepted : List ConnPtr
  dequeued : List ConnPtr
  crashed : Bool

/-- What a worker does once it has the lock at the top of its loop. -/
inductive Woken where
  | wait
  | exitShutdown
  | exitShrink
  | dequeue
  deriving DecidableEq, Repr

namespace ThreadPool

/-- The tests of `worker`, from its wait loop to the dequeue. -/
def woken (pool : ThreadPool) : Woken :=
  if pool.queueSize = 0 ∧ pool.shutdown = false ∧ pool.markedExits = 0 then .wait
  else if pool.shutdown = true ∧ pool.queueSize = 0 then .exitShutdown
  else if 0 < pool.markedExits ∧ pool.queueSize = 0 ∧ pool.minThreads < pool.threadCount then
    .exitShrink
  else .dequeue

/-- The test a worker makes after its job, first without and then with the lock. -/
def mayLeave (pool : ThreadPool) : Prop :=
  0 < pool.markedExits ∧ pool.minThreads < pool.threadCount

instance (pool : ThreadPool) : Decidable pool.mayLeave := inferInstanceAs (Decidable (_ ∧ _))

/-- One marked exit and one thread fewer. -/
def leave (pool : ThreadPool) : ThreadPool :=
  { pool with markedExits := pool.markedExits - 1, threadCount := pool.threadCount - 1 }

/-- `threadpool_maybe_shrink`. -/
def maybeShrink (pool : ThreadPool) : ThreadPool :=
  if pool.threadCount ≤ pool.minThreads ∨ pool.shutdown = true then pool
  else if 0 < pool.queueSize then pool
  else
    let excess := pool.threadCount - pool.minThreads
    let toMark := if excess < pool.idleCount then excess else pool.idleCount
    if 0 < toMark then { pool with markedExits := pool.markedExits + toMark } else pool

end ThreadPool

namespace PoolState

variable {ι : Type*}

/--
The pool after `threadpool_create`, which creates `n` of the `maxThreads`
workers: all of them, unless `pthread_create` fails.
-/
def create (maxThreads n : ℕ) (minThreads : ℤ) : PoolState ι where
  pool :=
    { threads := fun i => if 0 ≤ i ∧ i < n then some i.toNat else none
      threadCount := n
      maxThreads := maxThreads
      minThreads := minThreads
      head := none
      tail := none
      queueSize := 0
      idleCount := 0
      markedExits := 0
      shutdown := false }
  jobs := fun _ => none
  workers := fun _ => .ready
  created := n
  callers := fun _ => none
  destroyer := .notCalled
  accepted := []
  dequeued := []
  crashed := false

def setWorker (s : PoolState ι) (t : ThreadId) (phase : WorkerPhase) : PoolState ι :=
  { s with workers := Function.update s.workers t phase }

/-- Count one more or one fewer idle worker. -/
def addIdle (s : PoolState ι) (k : ℤ) : PoolState ι :=
  { s with pool := { s.pool with idleCount := s.pool.idleCount + k } }

/-- A worker takes a marked exit. -/
def takeExit (s : PoolState ι) (t : ThreadId) : PoolState ι :=
  { s with pool := s.pool.leave }.setWorker t .exited

/-- The dequeue; with no job at the head it reads a NULL pointer. -/
def dequeue (s : PoolState ι) (t : ThreadId) : PoolState ι :=
  match s.pool.head with
  | none => { s with crashed := true }
  | some job =>
    match s.jobs job with
    | none => { s with crashed := true }
    | some node =>
      { s with
        pool := { s.pool with
          head := node.next
          tail := if node.next = none then none else s.pool.tail
          queueSize := s.pool.queueSize - 1 }
        workers := Function.update s.workers t (.working job)
        dequeued := s.dequeued ++ [node.val] }

/-- A worker that has the lock and is counted as idle, up to its next wait, exit or unlock. -/
def wake (s : PoolState ι) (t : ThreadId) : PoolState ι :=
  match s.pool.woken with
  | .wait => s.setWorker t .waiting
  | .exitShutdown => (s.addIdle (-1)).setWorker t .exited
  | .exitShrink => (s.addIdle (-1)).takeExit t
  | .dequeue => (s.addIdle (-1)).dequeue t

/-- The next step of a worker. -/
def workerStep (s : PoolState ι) (t : ThreadId) : PoolState ι :=
  match s.workers t with
  | .ready => (s.addIdle 1).wake t
  | .waiting => s.wake t
  | .working job =>
    -- `free(job)`, then the test without the lock
    { s with jobs := Function.update s.jobs job none }.setWorker t
      (if s.pool.mayLeave then .leaving else .ready)
  | .leaving =>
    if s.pool.mayLeave then s.takeExit t else s.setWorker t .ready
  | .exited => s

/-- `pthread_create` of one more worker, whose handle is stored behind the last one. -/
def createWorker (s : PoolState ι) : PoolState ι :=
  { s with
    pool := { s.pool with
      threads := Function.update s.pool.threads s.pool.threadCount (some s.created)
      threadCount := s.pool.threadCount + 1 }
    workers := Function.update s.workers s.created .ready
    created := s.created + 1 }

/-- The loop of the scale-up; the list tells which calls of `pthread_create` succeed. -/
def createWorkers : PoolState ι → ℕ → List Bool → PoolState ι
  | s, 0, _ => s
  | s, k + 1, oks =>
    if s.pool.maxThreads ≤ s.pool.threadCount then s
    else createWorkers (if oks.headD true then s.createWorker else s) k oks.tail

/-- The scale-up of `threadpool_submit`. -/
def scaleUp (s : PoolState ι) (oks : List Bool) : PoolState ι :=
  if s.pool.threadCount < s.pool.queueSize ∧ s.pool.threadCount < s.pool.maxThreads then
    let need := s.pool.queueSize - s.pool.threadCount
    let can := s.pool.maxThreads - s.pool.threadCount
    s.createWorkers (if need < can then need else can).toNat oks
  else s

variable [DecidableEq ι]

/-- A caller links its job behind the tail of the queue. -/
def enqueue (s : PoolState ι) (i : ι) (job : JobPtr) : PoolState ι :=
  { s with
    jobs := linkLast s.jobs s.pool.tail job
    pool := { s.pool with
      head := if s.pool.tail = none then some job else s.pool.head
      tail := some job
      queueSize := s.pool.queueSize + 1 }
    callers := Function.update s.callers i none
    accepted := s.accepted ++ ((s.jobs job).map Node.val).toList }

/-- `threadpool_submit` up to the lock. An allocation fails, or its address is not in use. -/
def submit (s : PoolState ι) (i : ι) (conn : ConnPtr) (mem : Option JobPtr) : PoolState ι :=
  if s.pool.shutdown = true ∨ s.callers i ≠ none then s
  else match mem with
  | none => s
  | some job =>
    if s.jobs job ≠ none then s
    else
      { s with
        jobs := Function.update s.jobs job (some ⟨conn, none⟩)
        callers := Function.update s.callers i (some job) }

/-- The critical section of `threadpool_submit`. -/
def submitLocked (s : PoolState ι) (i : ι) (oks : List Bool) : PoolState ι :=
  match s.callers i with
  | none => s
  | some job => (s.enqueue i job).scaleUp oks

omit [DecidableEq ι] in
/--
The next step of `threadpool_destroy`. A join returns once its thread has
returned; the release frees the pool with its lock.
-/
def destroyStep (s : PoolState ι) : PoolState ι :=
  match s.destroyer with
  | .notCalled => { s with pool := { s.pool with shutdown := true }, destroyer := .flagged }
  | .flagged => { s with destroyer := .joining s.pool.threadCount 0 }
  | .joining n i =>
    if i < n then
      match s.pool.threads i with
      | none => s
      | some t => if s.workers t = .exited then { s with destroyer := .joining n (i + 1) } else s
    else { s with destroyer := .released }
  | .released => s

end PoolState

inductive PoolEvent (ι : Type*) where
  | submit (caller : ι) (conn : ConnPtr) (mem : Option JobPtr)
  | submitLocked (caller : ι) (oks : List Bool)
  | maybeShrink
  | destroy
  | worker (t : ThreadId)
  deriving DecidableEq, Repr

namespace PoolState

variable {ι : Type*}

/-- No step is left once a worker has crashed or the pool is released. -/
def halted (s : PoolState ι) : Prop := s.crashed = true ∨ s.destroyer = .released

instance (s : PoolState ι) : Decidable s.halted := inferInstanceAs (Decidable (_ ∨ _))

/-- A worker that has left its job behind, and can take the lock at the top of its loop. -/
def AtLock (s : PoolState ι) (t : ThreadId) : Prop :=
  ¬ s.halted ∧ t < s.created ∧ (s.workers t = .ready ∨ s.workers t = .waiting)

instance (s : PoolState ι) (t : ThreadId) : Decidable (s.AtLock t) :=
  inferInstanceAs (Decidable (_ ∧ _))

variable [DecidableEq ι]

/-- One event; a thread that was not created has no step. -/
def handle (s : PoolState ι) : PoolEvent ι → PoolState ι
  | .submit i conn mem => s.submit i conn mem
  | .submitLocked i oks => s.submitLocked i oks
  | .maybeShrink => { s with pool := s.pool.maybeShrink }
  | .destroy => s.destroyStep
  | .worker t => if t < s.created then s.workerStep t else s

def step (s : PoolState ι) (e : PoolEvent ι) : PoolState ι := if s.halted then s else s.handle e

end PoolState

end ChatServer
