import Mathlib.Algebra.BigOperators.Intervals
import Mathlib.Algebra.BigOperators.Ring.Finset
import Mathlib.Tactic.Ring
import ChatServer.Pool.Signals

/-! # What the counts of the pool count

The pool keeps the number of its threads and the number of those that are idle.
Both are true of the workers in every state, until a worker reads a NULL
pointer or the pool is shut down.
-/

namespace ChatServer

open Library

/-- One for a worker that waits. -/
def WorkerPhase.waits (phase : WorkerPhase) : ℤ := if phase = .waiting then 1 else 0

/-- One for a worker that has not returned. -/
def WorkerPhase.lives (phase : WorkerPhase) : ℤ := if phase = .exited then 0 else 1

namespace PoolState

variable {ι : Type*} {s s' : PoolState ι} {t : ThreadId} {phase : WorkerPhase}
  {f : WorkerPhase → ℤ}

/-- The sum of a weight over all workers. -/
def census (s : PoolState ι) (f : WorkerPhase → ℤ) : ℤ :=
  ∑ t ∈ Finset.range s.created, f (s.workers t)

theorem census_move (ht : t < s.created) (hcreated : s'.created = s.created)
    (hworkers : s'.workers = Function.update s.workers t phase) :
    s'.census f = s.census f - f (s.workers t) + f phase := by
  have hmem : t ∈ Finset.range s.created := Finset.mem_range.mpr ht
  have hrest : ∑ u ∈ (Finset.range s.created).erase t, f (s'.workers u) =
      ∑ u ∈ (Finset.range s.created).erase t, f (s.workers u) := by
    refine Finset.sum_congr rfl fun u hu => ?_
    rw [hworkers, Function.update_of_ne (Finset.ne_of_mem_erase hu)]
  have hsplit := Finset.add_sum_erase (Finset.range s.created) (fun u => f (s.workers u)) hmem
  rw [census, census, hcreated, ← Finset.add_sum_erase _ _ hmem, hrest, hworkers,
    Function.update_self, ← hsplit]
  ring

theorem census_createWorker : s.createWorker.census f = s.census f + f .ready := by
  have hold : ∑ u ∈ Finset.range s.created, f (s.createWorker.workers u) =
      ∑ u ∈ Finset.range s.created, f (s.workers u) := by
    refine Finset.sum_congr rfl fun u hu => congrArg f ?_
    exact Function.update_of_ne (Finset.mem_range.mp hu).ne _ _
  have hnew : s.createWorker.workers s.created = .ready := Function.update_self _ _ _
  rw [census, show s.createWorker.created = s.created + 1 from rfl, Finset.sum_range_succ, hold,
    hnew, census]

/-- The counts are those of the workers. -/
structure Headcount (s : PoolState ι) : Prop where
  idle : s.crashed = false → s.pool.idleCount = s.census WorkerPhase.waits
  atMost : s.census WorkerPhase.lives ≤ s.pool.threadCount
  exact : s.pool.shutdown = false → s.pool.threadCount = s.census WorkerPhase.lives

theorem headcount_create {maxThreads n : ℕ} {minThreads : ℤ} :
    (create maxThreads n minThreads : PoolState ι).Headcount := by
  have hlives : (create maxThreads n minThreads : PoolState ι).census WorkerPhase.lives = n := by
    simp [census, create, WorkerPhase.lives]
  refine ⟨fun _ => ?_, hlives.le, fun _ => hlives.symm⟩
  simp [census, create, WorkerPhase.waits]

theorem Headcount.same (h : s.Headcount) (hworkers : s'.workers = s.workers)
    (hcreated : s'.created = s.created) (hcount : s'.pool.threadCount = s.pool.threadCount)
    (hidle : s'.crashed = false → s.crashed = false ∧ s'.pool.idleCount = s.pool.idleCount)
    (hshut : s'.pool.shutdown = false → s.pool.shutdown = false) : s'.Headcount := by
  have hcensus (f : WorkerPhase → ℤ) : s'.census f = s.census f := by
    rw [census, census, hcreated, hworkers]
  refine ⟨fun hc => ?_, ?_, fun hs => ?_⟩
  · rw [hcensus, (hidle hc).2]
    exact h.idle (hidle hc).1
  · rw [hcensus, hcount]
    exact h.atMost
  · rw [hcensus, hcount]
    exact h.exact (hshut hs)

theorem Headcount.move (h : s.Headcount) (ht : t < s.created) (hcreated : s'.created = s.created)
    (hworkers : s'.workers = Function.update s.workers t phase)
    (hshut : s'.pool.shutdown = s.pool.shutdown) (hcrash : s'.crashed = s.crashed)
    (hidle : s'.pool.idleCount = s.pool.idleCount - (s.workers t).waits + phase.waits)
    (hcount : s'.pool.threadCount = s.pool.threadCount - (s.workers t).lives + phase.lives ∨
      (s.pool.shutdown = true ∧ s'.pool.threadCount = s.pool.threadCount ∧
        phase.lives ≤ (s.workers t).lives)) : s'.Headcount := by
  have hatMost := h.atMost
  refine ⟨fun hc => ?_, ?_, fun hs => ?_⟩
  · rw [census_move ht hcreated hworkers, hidle, h.idle (hcrash ▸ hc)]
  · rw [census_move ht hcreated hworkers]
    rcases hcount with hcount | ⟨-, hcount, hle⟩ <;> omega
  · rw [hshut] at hs
    have hexact := h.exact hs
    rw [census_move ht hcreated hworkers]
    rcases hcount with hcount | ⟨hdown, -⟩
    · omega
    · rw [hs] at hdown
      cases hdown

theorem dequeue_cases (s : PoolState ι) (t : ThreadId) :
    s.dequeue t = { s with crashed := true } ∨
      ∃ job, (s.dequeue t).workers = Function.update s.workers t (.working job) ∧
        (s.dequeue t).created = s.created ∧ (s.dequeue t).crashed = s.crashed ∧
        (s.dequeue t).pool.shutdown = s.pool.shutdown ∧
        (s.dequeue t).pool.idleCount = s.pool.idleCount ∧
        (s.dequeue t).pool.threadCount = s.pool.threadCount := by
  unfold dequeue
  split
  · exact .inl rfl
  · split
    · exact .inl rfl
    · exact .inr ⟨_, rfl, rfl, rfl, rfl, rfl, rfl⟩

theorem Headcount.wake (h : s.Headcount) (ht : t < s.created) {k : ℤ}
    (hk : k + (s.workers t).waits = 1) (hlives : (s.workers t).lives = 1) :
    ((s.addIdle k).wake t).Headcount := by
  unfold PoolState.wake
  cases hwoken : (s.addIdle k).pool.woken with
  | wait =>
    refine h.move ht rfl rfl rfl rfl ?_ (.inl ?_)
    · simp only [setWorker, addIdle, WorkerPhase.waits, if_true] at hk ⊢
      omega
    · simp only [setWorker, addIdle, hlives]
      simp [WorkerPhase.lives]
  | exitShutdown =>
    refine h.move ht rfl rfl rfl rfl ?_ (.inr ⟨(ThreadPool.woken_exitShutdown hwoken).1, rfl, ?_⟩)
    · simp only [setWorker, addIdle]
      have hout : WorkerPhase.exited.waits = 0 := rfl
      omega
    · rw [hlives]
      decide
  | exitShrink =>
    refine h.move ht rfl rfl rfl rfl ?_ (.inl ?_)
    · simp only [takeExit, ThreadPool.leave, setWorker, addIdle]
      have hout : WorkerPhase.exited.waits = 0 := rfl
      omega
    · simp only [takeExit, ThreadPool.leave, setWorker, addIdle, hlives]
      have hout : WorkerPhase.exited.lives = 0 := rfl
      omega
  | dequeue =>
    rcases dequeue_cases ((s.addIdle k).addIdle (-1)) t with hcrash | ⟨job, hworkers, hcreated,
      hcrash, hshut, hidle, hcount⟩
    · simp only [hcrash]
      exact h.same rfl rfl rfl (fun hc => by cases hc) id
    · refine h.move ht hcreated hworkers hshut hcrash ?_ (.inl ?_)
      · rw [hidle]
        simp only [addIdle]
        have hwork : (WorkerPhase.working job).waits = 0 := rfl
        omega
      · rw [hcount, hlives]
        simp only [addIdle]
        have hwork : (WorkerPhase.working job).lives = 1 := rfl
        omega

theorem Headcount.workerStep (h : s.Headcount) (ht : t < s.created) :
    (s.workerStep t).Headcount := by
  unfold PoolState.workerStep
  cases hphase : s.workers t with
  | ready => exact h.wake ht (by rw [hphase]; rfl) (by rw [hphase]; rfl)
  | waiting =>
    have hwake := h.wake ht (k := 0) (by rw [hphase]; rfl) (by rw [hphase]; rfl)
    rwa [addIdle_zero] at hwake
  | working job =>
    simp only
    split_ifs
    · exact h.move ht rfl rfl rfl rfl (by rw [hphase]; simp [setWorker, WorkerPhase.waits])
        (.inl (by rw [hphase]; simp [setWorker, WorkerPhase.lives]))
    · exact h.move ht rfl rfl rfl rfl (by rw [hphase]; simp [setWorker, WorkerPhase.waits])
        (.inl (by rw [hphase]; simp [setWorker, WorkerPhase.lives]))
  | leaving =>
    simp only
    split_ifs
    · exact h.move ht rfl rfl rfl rfl
        (by rw [hphase]; simp [takeExit, ThreadPool.leave, setWorker, WorkerPhase.waits])
        (.inl (by rw [hphase]; simp [takeExit, ThreadPool.leave, setWorker, WorkerPhase.lives]))
    · exact h.move ht rfl rfl rfl rfl (by rw [hphase]; simp [setWorker, WorkerPhase.waits])
        (.inl (by rw [hphase]; simp [setWorker, WorkerPhase.lives]))
  | exited => exact h

theorem Headcount.createWorker (h : s.Headcount) : s.createWorker.Headcount := by
  have hatMost := h.atMost
  refine ⟨fun hc => ?_, ?_, fun hs => ?_⟩
  · rw [census_createWorker]
    simpa [PoolState.createWorker, WorkerPhase.waits] using h.idle hc
  · rw [census_createWorker]
    simpa [PoolState.createWorker, WorkerPhase.lives] using hatMost
  · rw [census_createWorker]
    simpa [PoolState.createWorker, WorkerPhase.lives] using h.exact hs

theorem Headcount.createWorkers (h : s.Headcount) (k : ℕ) (oks : List Bool) :
    (s.createWorkers k oks).Headcount := by
  induction k generalizing s oks with
  | zero => exact h
  | succ k ih =>
    unfold PoolState.createWorkers
    split_ifs
    · exact h
    · exact ih h.createWorker _
    · exact ih h _

variable [DecidableEq ι]

theorem Headcount.step (h : s.Headcount) (e : PoolEvent ι) : (s.step e).Headcount := by
  unfold PoolState.step
  split_ifs
  · exact h
  · cases e with
    | submit i conn mem =>
      rcases submit_cases s i conn mem with heq | ⟨job, -, -, heq⟩ <;> rw [handle, heq]
      · exact h
      · exact h.same rfl rfl rfl (fun hc => ⟨hc, rfl⟩) id
    | submitLocked i oks =>
      rw [handle, submitLocked]
      split
      · exact h
      · have hqueued : (s.enqueue i ‹_›).Headcount := h.same rfl rfl rfl (fun hc => ⟨hc, rfl⟩) id
        unfold scaleUp
        split_ifs
        · exact hqueued.createWorkers _ _
        · exact hqueued
    | maybeShrink =>
      have hpool : s.pool.maybeShrink.threadCount = s.pool.threadCount ∧
          s.pool.maybeShrink.idleCount = s.pool.idleCount ∧
          s.pool.maybeShrink.shutdown = s.pool.shutdown := by
        unfold ThreadPool.maybeShrink
        simp only
        split_ifs <;> exact ⟨rfl, rfl, rfl⟩
      exact h.same rfl rfl hpool.1 (fun hc => ⟨hc, hpool.2.1⟩) fun hs => hpool.2.2 ▸ hs
    | destroy =>
      rw [handle, destroyStep]
      split
      · exact h.same rfl rfl rfl (fun hc => ⟨hc, rfl⟩) fun hs => by cases hs
      · exact h.same rfl rfl rfl (fun hc => ⟨hc, rfl⟩) id
      · split_ifs
        · split
          · exact h
          · split_ifs
            · exact h.same rfl rfl rfl (fun hc => ⟨hc, rfl⟩) id
            · exact h
        · exact h.same rfl rfl rfl (fun hc => ⟨hc, rfl⟩) id
      · exact h
    | worker t =>
      rw [handle]
      split_ifs with ht
      · exact h.workerStep ht
      · exact h

omit [DecidableEq ι] in
theorem census_waits : s.census WorkerPhase.waits =
    ((Finset.range s.created).filter fun t => s.workers t = .waiting).card := by
  simp only [census, WorkerPhase.waits, Finset.sum_boole]

omit [DecidableEq ι] in
theorem census_lives : s.census WorkerPhase.lives = s.living.card := by
  have hflip : ∀ phase : WorkerPhase, phase.lives = if phase ≠ .exited then 1 else 0 := by
    intro phase
    rw [WorkerPhase.lives, ite_not]
  simp only [census, hflip, Finset.sum_boole, living]

/--
Whatever is submitted, shrunk, scaled up and worked on in whatever order: the
idle count is the number of workers in the wait, until one has crashed; the
thread count is the number of workers that have not returned, until a shutdown,
and never less than it; and it stays at most the maximum and at least the
minimum, or the number of threads at the start if that is smaller.
-/
theorem counts_exact {maxThreads n : ℕ} {minThreads : ℤ} (hn : n ≤ maxThreads)
    (events : List (PoolEvent ι)) :
    let s := run step (create maxThreads n minThreads) events
    (s.crashed = false → s.pool.idleCount =
      ((Finset.range s.created).filter fun t => s.workers t = .waiting).card) ∧
    (s.pool.shutdown = false → s.pool.threadCount = s.living.card) ∧
    (s.living.card : ℤ) ≤ s.pool.threadCount ∧
    min minThreads n ≤ s.pool.threadCount ∧ s.pool.threadCount ≤ maxThreads := by
  intro s
  have h : s.Headcount := run_invariant (fun _ e h => h.step e) headcount_create events
  refine ⟨fun hc => ?_, fun hs => ?_, ?_, run_threadCount hn minThreads events⟩
  · rw [h.idle hc, census_waits]
  · rw [h.exact hs, census_lives]
  · rw [← census_lives]
    exact h.atMost

/-- Three workers: two wait, and one of them is asked to leave and does. -/
theorem counts_exact_shrunk :
    let s : PoolState Unit :=
      run step (create 3 3 2) [.worker 0, .worker 1, .maybeShrink, .worker 0]
    s.pool.idleCount = 1 ∧ s.pool.threadCount = 2 := by
  intro s
  obtain ⟨hidle, hcount, -⟩ : (s.crashed = false → s.pool.idleCount =
      ((Finset.range s.created).filter fun t => s.workers t = .waiting).card) ∧
    (s.pool.shutdown = false → s.pool.threadCount = s.living.card) ∧
    (s.living.card : ℤ) ≤ s.pool.threadCount ∧
    min (2 : ℤ) (3 : ℕ) ≤ s.pool.threadCount ∧ s.pool.threadCount ≤ (3 : ℕ) :=
      counts_exact (by decide) _
  exact ⟨(hidle (by decide +kernel)).trans (by decide +kernel),
    (hcount (by decide +kernel)).trans (by decide +kernel)⟩

end PoolState

end ChatServer
