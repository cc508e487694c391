import ChatServer.Pool.Jobs

/-! # Dequeues

A worker that leaves its wait for a marked exit takes the exit only while there
are more threads than the minimum. With the minimum reached and an exit still
marked it goes on to the dequeue, whatever the queue holds.
-/

namespace ChatServer

open Library

namespace PoolState

open ThreadPool

variable {ι : Type*} {s : PoolState ι} {t : ThreadId}

/-- Whenever a worker reaches the dequeue, there is a job at the head of the queue. -/
def DequeueSafe (s : PoolState ι) (e : PoolEvent ι) : Prop :=
  ∀ t, e = .worker t → s.AtLock t → s.pool.woken = .dequeue → s.pool.head ≠ none

/--
No worker comes to the lock while the queue is empty, no shutdown is on its
way, and an exit is marked that the minimum of threads forbids.
-/
def NoStaleMark (s : PoolState ι) (e : PoolEvent ι) : Prop :=
  ∀ t, e = .worker t → s.AtLock t → s.pool.queueSize = 0 → s.pool.shutdown = false →
    s.pool.markedExits ≠ 0 → s.pool.minThreads < s.pool.threadCount

variable [DecidableEq ι]

theorem markedExits_step (h : 0 ≤ s.pool.markedExits) (e : PoolEvent ι) :
    0 ≤ (s.step e).pool.markedExits := by
  cases (step_counts s e).1 with
  | keep threads marks => rwa [marks]
  | leave may threads marks =>
    have hmarked := may.1
    omega
  | grow threads room marks => rwa [marks]
  | mark he above threads more excess => omega

omit [DecidableEq ι] in
/-- With an empty queue, the tests lead to the dequeue exactly when a stale mark is left. -/
theorem woken_dequeue_iff {pool : ThreadPool} (hq : pool.queueSize = 0)
    (hmarks : 0 ≤ pool.markedExits) :
    pool.woken = .dequeue ↔ pool.shutdown = false ∧ pool.markedExits ≠ 0 ∧
      ¬ pool.minThreads < pool.threadCount := by
  unfold woken
  constructor
  · intro h
    split_ifs at h with hwait hshut hshrink
    have hshut' : pool.shutdown = false := by
      by_contra hne
      exact hshut ⟨by simpa using hne, hq⟩
    have hmarked : pool.markedExits ≠ 0 := fun h0 => hwait ⟨hq, hshut', h0⟩
    exact ⟨hshut', hmarked, fun hlt => hshrink ⟨by omega, hq, hlt⟩⟩
  · rintro ⟨hshut, hmarked, hmin⟩
    rw [if_neg (fun h => hmarked h.2.2), if_neg (fun h => by simp [hshut] at h),
      if_neg (fun h => hmin h.2.2)]

omit [DecidableEq ι] in
/-- In one step, the dequeue is safe exactly when no stale mark leads to it. -/
theorem dequeueSafe_iff {ps : List (JobPtr × ConnPtr)} (h : Owned s ps)
    (hmarks : 0 ≤ s.pool.markedExits) (e : PoolEvent ι) : s.DequeueSafe e ↔ s.NoStaleMark e := by
  have hhead : s.pool.head = none ↔ s.pool.queueSize = 0 := by
    rw [h.linked.head_eq_none_iff, h.size]
    exact ⟨fun hl => by simp [hl], fun hl => List.eq_nil_of_length_eq_zero (by omega)⟩
  constructor
  · intro hsafe t he ht hq hshut hmarked
    by_contra hmin
    exact hsafe t he ht ((woken_dequeue_iff hq hmarks).mpr ⟨hshut, hmarked, hmin⟩) (hhead.mpr hq)
  · intro hstale t he ht hwoken hnone
    have hq := hhead.mp hnone
    obtain ⟨hshut, hmarked, hmin⟩ := (woken_dequeue_iff hq hmarks).mp hwoken
    exact hmin (hstale t he ht hq hshut hmarked)

/-- What carries the equivalence along a run. -/
def Counted (s : PoolState ι) : Prop := (∃ ps, Owned s ps) ∧ 0 ≤ s.pool.markedExits

theorem counted_step (s : PoolState ι) (e : PoolEvent ι) (h : s.Counted) : (s.step e).Counted :=
  ⟨owned_step h.1 e, markedExits_step h.2 e⟩

omit [DecidableEq ι] in
theorem counted_create {maxThreads n : ℕ} {minThreads : ℤ} :
    (create maxThreads n minThreads : PoolState ι).Counted :=
  ⟨⟨[], owned_create⟩, Int.le_refl 0⟩

/--
No worker of a run dequeues from an empty queue exactly when none comes to the
lock with a stale mark.
-/
theorem dequeue_safe_iff (maxThreads n : ℕ) (minThreads : ℤ) (inputs : List (PoolEvent ι)) :
    Along step DequeueSafe (create maxThreads n minThreads) inputs ↔
      Along step NoStaleMark (create maxThreads n minThreads) inputs := by
  refine along_congr (fun s e h _ => counted_step s e h) ?_ counted_create
  rintro s e ⟨⟨ps, h⟩, hmarks⟩
  exact dequeueSafe_iff h hmarks e

/-- Both workers wait; two rounds of shrink mark two exits, of which one may be taken. -/
theorem dequeue_stale :
    ¬ ∀ (maxThreads n : ℕ) (minThreads : ℤ) (inputs : List (PoolEvent ℕ)),
      Along step DequeueSafe (create maxThreads n minThreads) inputs := by
  intro h
  let before : List (PoolEvent ℕ) :=
    [.worker 0, .worker 1, .maybeShrink, .maybeShrink, .worker 0]
  have hlast := (along_append.mp (h 2 2 1 (before ++ [.worker 1]))).2.1
  exact hlast 1 rfl (by decide +kernel) (by decide +kernel) (by decide +kernel)

/-- The marks do not exceed the threads above the minimum. -/
def MarksFit (s : PoolState ι) : Prop :=
  s.pool.markedExits = 0 ∨ s.pool.markedExits ≤ s.pool.threadCount - s.pool.minThreads

/-- A round of shrink that starts with no exit marked. -/
def SpacedShrink (s : PoolState ι) (e : PoolEvent ι) : Prop :=
  e = .maybeShrink → s.pool.markedExits = 0

theorem marksFit_step (h : s.MarksFit) {e : PoolEvent ι} (he : s.SpacedShrink e) :
    (s.step e).MarksFit := by
  have hmin := (step_counts s e).2.2
  unfold MarksFit at h ⊢
  rw [hmin]
  cases (step_counts s e).1 with
  | keep threads marks => rwa [threads, marks]
  | leave may threads marks =>
    obtain ⟨hmarked, habove⟩ := may
    omega
  | grow threads room marks => omega
  | mark hshrink above threads more excess =>
    have hzero := he hshrink
    omega

/-- With one round of shrink at a time no worker dequeues from an empty queue. -/
theorem dequeue_safe_of_spaced (maxThreads n : ℕ) (minThreads : ℤ) (inputs : List (PoolEvent ι))
    (h : Along step SpacedShrink (create maxThreads n minThreads) inputs) :
    Along step DequeueSafe (create maxThreads n minThreads) inputs := by
  have hfit : Along step (fun s _ => s.MarksFit) (create maxThreads n minThreads) inputs :=
    along_of_invariant (fun s e hs he => marksFit_step hs he) (.inl rfl) h
  refine hfit.imp counted_step ?_ counted_create
  rintro s e ⟨⟨ps, howned⟩, hmarks⟩ hfit
  refine (dequeueSafe_iff howned hmarks e).mpr fun t _ _ _ _ hmarked => ?_
  have hfit' := hfit.resolve_left hmarked
  omega

end PoolState

end ChatServer
