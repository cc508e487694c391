import ChatServer.Pool.ThreadPool

/-! # The counts of the pool

What an event may do to the number of threads and of marked exits.
-/

namespace ChatServer

open Library

namespace ThreadPool

variable {pool pool' : ThreadPool}

theorem woken_exitShutdown (h : pool.woken = .exitShutdown) :
    pool.shutdown = true ∧ pool.queueSize = 0 := by
  unfold woken at h
  split_ifs at h with _ hshut _
  exact hshut

theorem woken_exitShrink (h : pool.woken = .exitShrink) : pool.mayLeave ∧ pool.queueSize = 0 := by
  unfold woken at h
  split_ifs at h with _ _ hshrink
  exact ⟨⟨hshrink.1, hshrink.2.2⟩, hshrink.2.1⟩

/-- What an event may do to the number of threads and of marked exits. -/
inductive Recount {ι : Type*} (e : PoolEvent ι) (pool pool' : ThreadPool) : Prop
  | keep (threads : pool'.threadCount = pool.threadCount)
      (marks : pool'.markedExits = pool.markedExits)
  | leave (may : pool.mayLeave) (threads : pool'.threadCount = pool.threadCount - 1)
      (marks : pool'.markedExits = pool.markedExits - 1)
  | grow (threads : pool.threadCount < pool'.threadCount)
      (room : pool'.threadCount ≤ pool.maxThreads) (marks : pool'.markedExits = pool.markedExits)
  | mark (he : e = .maybeShrink) (above : pool.minThreads < pool.threadCount)
      (threads : pool'.threadCount = pool.threadCount)
      (more : pool.markedExits < pool'.markedExits)
      (excess : pool'.markedExits ≤ pool.markedExits + (pool.threadCount - pool.minThreads))

/-- The bounds of the number of threads are the same. -/
def SameLimits (pool pool' : ThreadPool) : Prop :=
  pool'.maxThreads = pool.maxThreads ∧ pool'.minThreads = pool.minThreads

end ThreadPool

namespace PoolState

open ThreadPool

variable {ι : Type*} {s s' : PoolState ι} {t : ThreadId} {e : PoolEvent ι}

theorem dequeue_counts : (s.dequeue t).pool.threadCount = s.pool.threadCount ∧
    (s.dequeue t).pool.markedExits = s.pool.markedExits ∧
    SameLimits s.pool (s.dequeue t).pool := by
  unfold dequeue
  split
  · exact ⟨rfl, rfl, rfl, rfl⟩
  · split <;> exact ⟨rfl, rfl, rfl, rfl⟩

theorem addIdle_zero : s.addIdle 0 = s := by simp [addIdle]

theorem wake_counts (k : ℤ) : Recount e s.pool ((s.addIdle k).wake t).pool ∧
    SameLimits s.pool ((s.addIdle k).wake t).pool := by
  unfold wake
  split
  · exact ⟨.keep rfl rfl, rfl, rfl⟩
  · exact ⟨.keep rfl rfl, rfl, rfl⟩
  · exact ⟨.leave (woken_exitShrink ‹_›).1 rfl rfl, rfl, rfl⟩
  · obtain ⟨threads, marks, hlimits⟩ := dequeue_counts (s := (s.addIdle k).addIdle (-1)) (t := t)
    exact ⟨.keep threads marks, hlimits⟩

theorem workerStep_counts : Recount e s.pool (s.workerStep t).pool ∧
    SameLimits s.pool (s.workerStep t).pool := by
  unfold workerStep
  split
  · exact wake_counts 1
  · have h := wake_counts (e := e) (s := s) (t := t) 0
    rwa [addIdle_zero] at h
  · exact ⟨.keep rfl rfl, rfl, rfl⟩
  · split_ifs with hmay
    · exact ⟨.leave hmay rfl rfl, rfl, rfl⟩
    · exact ⟨.keep rfl rfl, rfl, rfl⟩
  · exact ⟨.keep rfl rfl, rfl, rfl⟩

theorem createWorkers_counts (s : PoolState ι) (k : ℕ) (oks : List Bool) :
    (s.createWorkers k oks).pool.markedExits = s.pool.markedExits ∧
    (s.createWorkers k oks).pool.maxThreads = s.pool.maxThreads ∧
    (s.createWorkers k oks).pool.minThreads = s.pool.minThreads ∧
    ((s.createWorkers k oks).pool.threadCount = s.pool.threadCount ∨
      (s.pool.threadCount < (s.createWorkers k oks).pool.threadCount ∧
        (s.createWorkers k oks).pool.threadCount ≤ s.pool.maxThreads)) := by
  induction k generalizing s oks with
  | zero => exact ⟨rfl, rfl, rfl, .inl rfl⟩
  | succ k ih =>
    unfold createWorkers
    split_ifs with hfull hok
    · exact ⟨rfl, rfl, rfl, .inl rfl⟩
    · obtain ⟨hmarks, hmax, hmin, hcount⟩ := ih s.createWorker oks.tail
      refine ⟨hmarks, hmax, hmin, .inr ?_⟩
      simp only [createWorker] at hcount ⊢
      omega
    · exact ih s oks.tail

theorem scaleUp_counts (s : PoolState ι) (oks : List Bool) :
    Recount e s.pool (s.scaleUp oks).pool ∧ SameLimits s.pool (s.scaleUp oks).pool := by
  unfold scaleUp
  split_ifs
  · obtain ⟨hmarks, hmax, hmin, hcount | ⟨hlt, hle⟩⟩ := createWorkers_counts s _ oks
    · exact ⟨.keep hcount hmarks, hmax, hmin⟩
    · exact ⟨.grow hlt hle hmarks, hmax, hmin⟩
  · exact ⟨.keep rfl rfl, rfl, rfl⟩

theorem maybeShrink_counts (pool : ThreadPool) :
    Recount (.maybeShrink : PoolEvent ι) pool pool.maybeShrink ∧
      SameLimits pool pool.maybeShrink := by
  unfold maybeShrink
  simp only
  split_ifs with hmin hqueue hidle hmark hmark
  · exact ⟨.keep rfl rfl, rfl, rfl⟩
  · exact ⟨.keep rfl rfl, rfl, rfl⟩
  · have habove := Int.not_le.mp (not_or.mp hmin).1
    exact ⟨.mark rfl habove rfl (by simp only; omega) (by simp only; omega), rfl, rfl⟩
  · exact ⟨.keep rfl rfl, rfl, rfl⟩
  · have habove := Int.not_le.mp (not_or.mp hmin).1
    exact ⟨.mark rfl habove rfl (by simp only; omega) (by simp only; omega), rfl, rfl⟩
  · exact ⟨.keep rfl rfl, rfl, rfl⟩

theorem destroyStep_eq (s : PoolState ι) : ∃ shutdown destroyer,
    s.destroyStep = { s with pool := { s.pool with shutdown }, destroyer } := by
  unfold destroyStep
  split
  · exact ⟨true, .flagged, rfl⟩
  · exact ⟨s.pool.shutdown, _, rfl⟩
  · split_ifs
    · split
      · exact ⟨s.pool.shutdown, s.destroyer, rfl⟩
      · split_ifs
        · exact ⟨s.pool.shutdown, _, rfl⟩
        · exact ⟨s.pool.shutdown, s.destroyer, rfl⟩
    · exact ⟨s.pool.shutdown, _, rfl⟩
  · exact ⟨s.pool.shutdown, s.destroyer, rfl⟩

variable [DecidableEq ι]

theorem submit_cases (s : PoolState ι) (i : ι) (conn : ConnPtr) (mem : Option JobPtr) :
    s.submit i conn mem = s ∨
      ∃ job, ¬ (s.pool.shutdown = true ∨ s.callers i ≠ none) ∧ s.jobs job = none ∧
        s.submit i conn mem =
          { s with
            jobs := Function.update s.jobs job (some ⟨conn, none⟩)
            callers := Function.update s.callers i (some job) } := by
  unfold submit
  split_ifs with hbusy
  · exact .inl rfl
  · split
    · exact .inl rfl
    · rename_i job
      split_ifs with hjob
      · exact .inl rfl
      · exact .inr ⟨job, hbusy, not_not.mp hjob, rfl⟩

/-- A step changes the counts as its event may, and no step changes their limits. -/
theorem step_counts (s : PoolState ι) (e : PoolEvent ι) :
    Recount e s.pool (s.step e).pool ∧ SameLimits s.pool (s.step e).pool := by
  unfold step
  split_ifs
  · exact ⟨.keep rfl rfl, rfl, rfl⟩
  · cases e with
    | submit i conn mem =>
      simp only [handle]
      rcases submit_cases s i conn mem with h | ⟨job, -, -, h⟩ <;> rw [h]
      · exact ⟨.keep rfl rfl, rfl, rfl⟩
      · exact ⟨.keep rfl rfl, rfl, rfl⟩
    | submitLocked i oks =>
      simp only [handle, submitLocked]
      split
      · exact ⟨.keep rfl rfl, rfl, rfl⟩
      · rename_i job _
        obtain ⟨hcounts, hlimits⟩ :=
          scaleUp_counts (e := .submitLocked i oks) (s.enqueue i job) oks
        refine ⟨?_, hlimits⟩
        cases hcounts with
        | keep threads marks => exact .keep threads marks
        | leave may threads marks => exact .leave may threads marks
        | grow threads room marks => exact .grow threads room marks
        | mark he => cases he
    | maybeShrink => exact maybeShrink_counts s.pool
    | destroy =>
      obtain ⟨shutdown, destroyer, h⟩ := destroyStep_eq s
      simp only [handle, h]
      exact ⟨.keep rfl rfl, rfl, rfl⟩
    | worker t =>
      simp only [handle]
      split_ifs
      · exact workerStep_counts
      · exact ⟨.keep rfl rfl, rfl, rfl⟩

end PoolState

end ChatServer
