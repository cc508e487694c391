import Mathlib.Data.Finset.Card
import ChatServer.Library.Fair
import ChatServer.Pool.Dequeue
import ChatServer.Pool.Join

/-! # Waits and signals

`PoolState` lets a wait on the condition variable end at any step. Here a wait
ends by `pthread_cond_signal`, which a submit calls and which wakes one of the
threads that wait, by `pthread_cond_broadcast`, or spuriously. A run of this
pool is a run of `PoolState` without the worker steps that cannot be taken.
-/

namespace ChatServer

open Library

variable {ι : Type*}

/-- The pool, and the threads in `pthread_cond_wait` that nothing has woken. -/
structure WaitState (ι : Type*) where
  pool : PoolState ι
  blocked : List ThreadId

/-- An event of the pool, with the choice a signal makes, or a spurious wakeup. -/
inductive WaitEvent (ι : Type*) where
  | pool (e : PoolEvent ι) (choice : ℕ)
  | spurious (t : ThreadId)
  deriving DecidableEq, Repr

namespace WaitState

def create (maxThreads n : ℕ) (minThreads : ℤ) : WaitState ι :=
  ⟨.create maxThreads n minThreads, []⟩

variable [DecidableEq ι]

/-- The threads still blocked after an event of the pool. -/
def blockedAfter (s : WaitState ι) (choice : ℕ) : PoolEvent ι → List ThreadId
  | .submit _ _ _ => s.blocked
  | .submitLocked i _ =>
    -- the signal of `threadpool_submit`
    if s.pool.callers i = none then s.blocked
    else s.blocked.eraseIdx (choice % s.blocked.length)
  | .maybeShrink =>
    -- the broadcast of `threadpool_maybe_shrink`, where it marks an exit
    if s.pool.pool.markedExits < s.pool.pool.maybeShrink.markedExits then [] else s.blocked
  | .destroy => if s.pool.destroyer = .notCalled then [] else s.blocked
  | .worker t =>
    if (s.pool.step (.worker t)).workers t = .waiting then s.blocked ++ [t] else s.blocked

/-- A thread that is blocked, or that was not created, has no step of its own. -/
def Stuck (s : WaitState ι) : PoolEvent ι → Prop
  | .worker t => s.pool.halted ∨ t ∈ s.blocked ∨ s.pool.created ≤ t
  | _ => s.pool.halted

instance (s : WaitState ι) : (e : PoolEvent ι) → Decidable (s.Stuck e)
  | .worker _ => inferInstanceAs (Decidable (_ ∨ _ ∨ _))
  | .submit _ _ _ | .submitLocked _ _ | .maybeShrink | .destroy =>
    inferInstanceAs (Decidable s.pool.halted)

def step (s : WaitState ι) : WaitEvent ι → WaitState ι
  | .pool e choice => if s.Stuck e then s else ⟨s.pool.step e, s.blockedAfter choice e⟩
  | .spurious t => { s with blocked := s.blocked.erase t }

/-- What an event is for the pool. -/
def seen (s : WaitState ι) : WaitEvent ι → List (PoolEvent ι)
  | .pool e _ => if s.Stuck e then [] else [e]
  | .spurious _ => []

/-- The events of the pool that a run takes. -/
def taken : WaitState ι → List (WaitEvent ι) → List (PoolEvent ι)
  | _, [] => []
  | s, e :: es => s.seen e ++ taken (s.step e) es

/-- A run is one of `PoolState`, with fewer worker steps. -/
theorem run_pool (s : WaitState ι) (es : List (WaitEvent ι)) :
    (run step s es).pool = run PoolState.step s.pool (s.taken es) := by
  induction es generalizing s with
  | nil => rfl
  | cons e es ih =>
    rw [run_cons, ih, taken, run_append]
    congr 1
    cases e with
    | pool e choice =>
      simp only [step, seen]
      split_ifs <;> rfl
    | spurious t => rfl

theorem states_refines {I : PoolState ι → Prop} (h : ∀ s e, I s → I (s.step e)) {s : WaitState ι}
    (hs : I s.pool) (es : ℕ → WaitEvent ι) (n : ℕ) : I (states step s es n).pool := by
  rw [states_eq_run, run_pool]
  exact run_invariant h hs _

end WaitState

namespace PoolState

variable {s : PoolState ι} {t : ThreadId} {e : PoolEvent ι}

/-- The workers that have not returned. -/
def living (s : PoolState ι) : Finset ThreadId :=
  (Finset.range s.created).filter fun t => s.workers t ≠ .exited

@[simp] theorem mem_living : t ∈ s.living ↔ s.Live t := by simp [living, Live]

/-- There are at least as many workers as the pool counts. -/
def Staffed (s : PoolState ι) : Prop := s.pool.threadCount ≤ s.living.card

/-- A step that moves no worker and takes no job, but may create workers and accept jobs. -/
structure Quiet (s s' : PoolState ι) : Prop where
  created : s.created ≤ s'.created
  workers : ∀ t < s.created, s'.workers t = s.workers t
  dequeued : s'.dequeued = s.dequeued
  accepted : s.accepted <+: s'.accepted
  staffed : s.Staffed → s'.Staffed
  shutdown : s.pool.shutdown = true → s'.pool.shutdown = true

theorem Quiet.refl (s : PoolState ι) : Quiet s s :=
  ⟨Nat.le_refl _, fun _ _ => rfl, rfl, List.prefix_rfl, id, id⟩

theorem Quiet.trans {s₁ s₂ s₃ : PoolState ι} (h₁ : Quiet s₁ s₂) (h₂ : Quiet s₂ s₃) :
    Quiet s₁ s₃ where
  created := h₁.created.trans h₂.created
  workers t ht := (h₂.workers t (ht.trans_le h₁.created)).trans (h₁.workers t ht)
  dequeued := h₂.dequeued.trans h₁.dequeued
  accepted := h₁.accepted.trans h₂.accepted
  staffed := h₂.staffed ∘ h₁.staffed
  shutdown := h₂.shutdown ∘ h₁.shutdown

theorem Quiet.live {s' : PoolState ι} (h : Quiet s s') (ht : s.Live t) : s'.Live t :=
  ⟨ht.1.trans_le h.created, by rw [h.workers t ht.1]; exact ht.2⟩

theorem createWorker_quiet (s : PoolState ι) : Quiet s s.createWorker where
  created := Nat.le_succ _
  workers t ht := Function.update_of_ne ht.ne _ _
  dequeued := rfl
  accepted := List.prefix_rfl
  staffed h := by
    have hliving : insert s.created s.living ⊆ s.createWorker.living := by
      intro t ht
      rw [mem_living]
      rcases Finset.mem_insert.mp ht with rfl | ht
      · exact ⟨Nat.lt_succ_self _, by simp [createWorker]⟩
      · obtain ⟨hlt, hphase⟩ := mem_living.mp ht
        refine ⟨Nat.lt_succ_of_lt hlt, ?_⟩
        simpa [createWorker, hlt.ne] using hphase
    have hnew : s.created ∉ s.living := by simp [living]
    have hcard := Finset.card_le_card hliving
    rw [Finset.card_insert_of_notMem hnew] at hcard
    unfold Staffed at h ⊢
    simp only [createWorker] at hcard ⊢
    omega
  shutdown := id

theorem createWorkers_quiet (s : PoolState ι) (k : ℕ) (oks : List Bool) :
    Quiet s (s.createWorkers k oks) := by
  induction k generalizing s oks with
  | zero => exact .refl s
  | succ k ih =>
    unfold createWorkers
    split_ifs
    · exact .refl s
    · exact (createWorker_quiet s).trans (ih _ _)
    · exact ih _ _

theorem scaleUp_quiet (s : PoolState ι) (oks : List Bool) : Quiet s (s.scaleUp oks) := by
  unfold scaleUp
  split_ifs
  · exact createWorkers_quiet s _ oks
  · exact .refl s

variable [DecidableEq ι]

theorem step_quiet (s : PoolState ι) (he : ∀ t, e ≠ .worker t) : Quiet s (s.step e) := by
  unfold step
  split_ifs
  · exact .refl s
  · cases e with
    | submit i conn mem =>
      rcases submit_cases s i conn mem with h | ⟨job, -, -, h⟩ <;> rw [handle, h]
      · exact .refl s
      · exact ⟨Nat.le_refl _, fun _ _ => rfl, rfl, List.prefix_rfl, id, id⟩
    | submitLocked i oks =>
      rw [handle, submitLocked]
      split
      · exact .refl s
      · rename_i job _
        have hq : Quiet s (s.enqueue i job) :=
          ⟨Nat.le_refl _, fun _ _ => rfl, rfl, List.prefix_append _ _, id, id⟩
        exact hq.trans (scaleUp_quiet _ oks)
    | maybeShrink =>
      have hcount : s.pool.maybeShrink.threadCount = s.pool.threadCount ∧
          s.pool.maybeShrink.shutdown = s.pool.shutdown := by
        unfold ThreadPool.maybeShrink
        simp only
        split_ifs <;> exact ⟨rfl, rfl⟩
      exact ⟨Nat.le_refl _, fun _ _ => rfl, rfl, List.prefix_rfl, hcount.1.le.trans,
        hcount.2.trans⟩
    | destroy =>
      rw [handle, destroyStep]
      split
      · exact ⟨Nat.le_refl _, fun _ _ => rfl, rfl, List.prefix_rfl, id, fun _ => rfl⟩
      · exact ⟨Nat.le_refl _, fun _ _ => rfl, rfl, List.prefix_rfl, id, id⟩
      · split_ifs
        · split
          · exact .refl s
          · split_ifs
            · exact ⟨Nat.le_refl _, fun _ _ => rfl, rfl, List.prefix_rfl, id, id⟩
            · exact .refl s
        · exact ⟨Nat.le_refl _, fun _ _ => rfl, rfl, List.prefix_rfl, id, id⟩
      · exact .refl s
    | worker t => exact absurd rfl (he t)

/-- The step of a worker, with a job in the queue. -/
inductive Works (s s' : PoolState ι) (t : ThreadId) : Prop
  | take (conn : ConnPtr) (phase : s.workers t = .ready ∨ s.workers t = .waiting) (job : JobPtr)
      (working : s'.workers t = .working job) (dequeued : s'.dequeued = s.dequeued ++ [conn])
      (count : s'.pool.threadCount = s.pool.threadCount)
  | done (job : JobPtr) (phase : s.workers t = .working job)
      (after : s'.workers t = .leaving ∨ s'.workers t = .ready)
      (dequeued : s'.dequeued = s.dequeued) (count : s'.pool.threadCount = s.pool.threadCount)
      (marks : s'.pool.markedExits = s.pool.markedExits)
  | stay (phase : s.workers t = .leaving) (after : s'.workers t = .ready)
      (dequeued : s'.dequeued = s.dequeued) (count : s'.pool.threadCount = s.pool.threadCount)
      (marks : s'.pool.markedExits = s.pool.markedExits)
  | leave (may : s.pool.mayLeave) (dequeued : s'.dequeued = s.dequeued)
      (count : s'.pool.threadCount = s.pool.threadCount - 1)
      (marks : s'.pool.markedExits = s.pool.markedExits - 1)

omit [DecidableEq ι] in
/-- While a job is queued, a worker that has the lock goes on to the dequeue. -/
theorem woken_of_queued {pool : ThreadPool} (hq : pool.queueSize ≠ 0) :
    pool.woken = .dequeue := by
  unfold ThreadPool.woken
  rw [if_neg fun h => hq h.1, if_neg fun h => hq h.2, if_neg fun h => hq h.2.1]

omit [DecidableEq ι] in
theorem Owned.dequeue_works {ps : List (JobPtr × ConnPtr)} (h : Owned s ps)
    (hq : s.pool.queueSize ≠ 0) (hphase : s.workers t = .ready ∨ s.workers t = .waiting)
    {s' : PoolState ι} (hjobs : s'.jobs = s.jobs) (hhead : s'.pool.head = s.pool.head)
    (hcount : s'.pool.threadCount = s.pool.threadCount) (hdeq : s'.dequeued = s.dequeued) :
    Works s (s'.dequeue t) t := by
  have hlinked := h.linked.chain
  have hsize := h.size
  cases ps with
  | nil => exact absurd hsize hq
  | cons p ps =>
    obtain ⟨hfirst, next, hnode, -⟩ := hlinked
    have hstep : s'.dequeue t =
        { s' with
          pool := { s'.pool with
            head := next
            tail := if next = none then none else s'.pool.tail
            queueSize := s'.pool.queueSize - 1 }
          workers := Function.update s'.workers t (.working p.1)
          dequeued := s'.dequeued ++ [p.2] } := by
      unfold PoolState.dequeue
      rw [hhead, hfirst]
      simp only [hjobs, hnode]
    rw [hstep]
    exact .take p.2 hphase p.1 (Function.update_self _ _ _) (by rw [← hdeq]) hcount

omit [DecidableEq ι] in
theorem Owned.works {ps : List (JobPtr × ConnPtr)} (h : Owned s ps) (hq : s.pool.queueSize ≠ 0)
    (ht : s.workers t ≠ .exited) : Works s (s.workerStep t) t := by
  unfold PoolState.workerStep
  split
  · rename_i hphase
    simp only [PoolState.wake, show (s.addIdle 1).pool.woken = .dequeue from woken_of_queued hq]
    exact h.dequeue_works hq (.inl hphase) rfl rfl rfl rfl
  · rename_i hphase
    simp only [PoolState.wake, woken_of_queued hq]
    exact h.dequeue_works hq (.inr hphase) rfl rfl rfl rfl
  · rename_i job hphase
    refine .done job hphase ?_ rfl rfl rfl
    simp only [PoolState.setWorker, Function.update_self]
    split_ifs
    · exact .inl rfl
    · exact .inr rfl
  · rename_i hphase
    split_ifs with hmay
    · exact .leave hmay rfl rfl rfl
    · exact .stay hphase (Function.update_self _ _ _) rfl rfl rfl
  · exact absurd ‹_› ht

end PoolState

end ChatServer
