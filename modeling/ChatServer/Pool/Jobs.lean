import ChatServer.Pool.Counts

/-! # The jobs of the pool

Every job belongs to one caller, to the queue, or to one worker. The queue
holds the jobs accepted and not yet dequeued, in the order of submission.
-/

namespace ChatServer

open Library

namespace PoolState

open ThreadPool

variable {ι : Type*} {s s' : PoolState ι} {ps : List (JobPtr × ConnPtr)} {t : ThreadId}
  {job : JobPtr}

/-- The linked list of the pool is `ps`, and no job has two owners. -/
structure Owned (s : PoolState ι) (ps : List (JobPtr × ConnPtr)) : Prop where
  linked : Linked s.jobs s.pool.head s.pool.tail ps
  size : s.pool.queueSize = ps.length
  order : s.dequeued ++ ps.map Prod.snd = s.accepted
  caller : ∀ {i p}, s.callers i = some p → (∃ conn, s.jobs p = some ⟨conn, none⟩) ∧
    p ∉ ps.map Prod.fst ∧ (∀ j, s.callers j = some p → j = i) ∧ ∀ t, s.workers t ≠ .working p
  worker : ∀ {t p}, s.workers t = .working p → s.jobs p ≠ none ∧ p ∉ ps.map Prod.fst ∧
    ∀ u, s.workers u = .working p → u = t

/-- The parts of a state that own jobs, workers apart. -/
def owners (s : PoolState ι) : (JobPtr → Option Job) × Option JobPtr × Option JobPtr × ℤ ×
    (ι → Option JobPtr) × List ConnPtr × List ConnPtr :=
  (s.jobs, s.pool.head, s.pool.tail, s.pool.queueSize, s.callers, s.accepted, s.dequeued)

theorem Owned.congr (h : Owned s ps) (ho : s'.owners = s.owners)
    (hw : ∀ t p, s'.workers t = .working p → s.workers t = .working p) : Owned s' ps := by
  simp only [owners, Prod.mk.injEq] at ho
  obtain ⟨hjobs, hhead, htail, hsize, hcallers, hacc, hdeq⟩ := ho
  constructor
  · rw [hjobs, hhead, htail]
    exact h.linked
  · rw [hsize]
    exact h.size
  · rw [hdeq, hacc]
    exact h.order
  · intro i p hi
    rw [hcallers] at hi ⊢
    rw [hjobs]
    obtain ⟨hp, hq, huniq, hnot⟩ := h.caller hi
    exact ⟨hp, hq, huniq, fun t ht => hnot t (hw t p ht)⟩
  · intro t p ht
    rw [hjobs]
    obtain ⟨hp, hq, huniq⟩ := h.worker (hw t p ht)
    exact ⟨hp, hq, fun u hu => huniq u (hw u p hu)⟩

theorem owned_create {maxThreads n : ℕ} {minThreads : ℤ} :
    Owned (create maxThreads n minThreads : PoolState ι) [] where
  linked := .nil
  size := rfl
  order := rfl
  caller := fun h => by cases h
  worker := fun h => by cases h

theorem Owned.setWorker (h : Owned s ps) (phase : WorkerPhase) (hp : ∀ p, phase ≠ .working p) :
    Owned (s.setWorker t phase) ps := by
  refine h.congr rfl fun u p hu => ?_
  rcases eq_or_ne u t with rfl | hne
  · exact absurd (by simpa [PoolState.setWorker] using hu) (hp p)
  · simpa [PoolState.setWorker, hne] using hu

theorem Owned.addIdle (h : Owned s ps) (k : ℤ) : Owned (s.addIdle k) ps :=
  h.congr rfl fun _ _ ht => ht

theorem Owned.takeExit (h : Owned s ps) : Owned (s.takeExit t) ps := by
  have hleave : Owned { s with pool := s.pool.leave } ps := h.congr rfl fun _ _ ht => ht
  exact hleave.setWorker .exited (by simp)

/-- The dequeue moves the first job from the queue to a worker that has none. -/
theorem Owned.dequeue (h : Owned s ps) (ht : ∀ p, s.workers t ≠ .working p) :
    ∃ ps', Owned (s.dequeue t) ps' := by
  cases hhead : s.pool.head with
  | none =>
    refine ⟨ps, h.congr ?_ ?_⟩ <;> simp [PoolState.dequeue, hhead, owners]
  | some job =>
    cases hjob : s.jobs job with
    | none =>
      refine ⟨ps, h.congr ?_ ?_⟩ <;> simp [PoolState.dequeue, hhead, hjob, owners]
    | some node =>
      obtain ⟨conn, next⟩ := node
      have hlinked := h.linked
      rw [hhead] at hlinked
      obtain ⟨ps', rfl, hnot, hlinked'⟩ := hlinked.pop hjob
      have hsize := h.size
      have horder := h.order
      have hfree : ∀ u, s.workers u ≠ .working job := fun u hu =>
        (h.worker hu).2.1 (List.mem_map_of_mem List.mem_cons_self)
      simp only [PoolState.dequeue, hhead, hjob]
      refine ⟨ps', ?_⟩
      constructor
      · exact hlinked'
      · simp only [hsize, List.length_cons]
        omega
      · rw [← horder, List.map_cons, List.append_assoc]
        rfl
      · intro i p hi
        obtain ⟨hp, hq, huniq, hnone⟩ := h.caller hi
        have hmem := not_or.mp (List.mem_cons.not.mp hq)
        refine ⟨hp, hmem.2, huniq, fun u hu => ?_⟩
        rcases eq_or_ne u t with rfl | hne
        · obtain rfl : job = p := by simpa using hu
          exact hmem.1 rfl
        · exact hnone u (by simpa [hne] using hu)
      · intro u p hu
        rcases eq_or_ne u t with rfl | hne
        · obtain rfl : job = p := by simpa using hu
          refine ⟨by simp [hjob], hnot, fun v hv => ?_⟩
          by_contra hvu
          exact hfree v (by simpa [hvu] using hv)
        · have hu' : s.workers u = .working p := by simpa [hne] using hu
          obtain ⟨hp, hq, huniq⟩ := h.worker hu'
          refine ⟨hp, fun hm => hq (List.mem_cons_of_mem _ hm), fun v hv => ?_⟩
          rcases eq_or_ne v t with rfl | hvt
          · obtain rfl : job = p := by simpa using hv
            exact absurd hu' (hfree u)
          · exact huniq v (by simpa [hvt] using hv)

theorem Owned.wake (h : Owned s ps) (ht : ∀ p, s.workers t ≠ .working p) :
    ∃ ps', Owned (s.wake t) ps' := by
  unfold PoolState.wake
  split
  · exact ⟨ps, h.setWorker .waiting (by simp)⟩
  · exact ⟨ps, (h.addIdle _).setWorker .exited (by simp)⟩
  · exact ⟨ps, (h.addIdle _).takeExit⟩
  · exact (h.addIdle _).dequeue ht

theorem Owned.finish (h : Owned s ps) (ht : s.workers t = .working job) {phase : WorkerPhase}
    (hp : ∀ p, phase ≠ .working p) :
    Owned ({ s with jobs := Function.update s.jobs job none }.setWorker t phase) ps := by
  obtain ⟨-, hq, huniq⟩ := h.worker ht
  have hold : ∀ {u p}, Function.update s.workers t phase u = .working p →
      u ≠ t ∧ s.workers u = .working p := by
    intro u p hu
    rcases eq_or_ne u t with rfl | hne
    · exact absurd (by simpa using hu) (hp p)
    · exact ⟨hne, by simpa [hne] using hu⟩
  constructor
  · refine h.linked.congr fun p hmem => Function.update_of_ne ?_ _ _
    rintro rfl
    exact hq hmem
  · exact h.size
  · exact h.order
  · intro i p hi
    obtain ⟨⟨conn, hconn⟩, hnot, hone, hnone⟩ := h.caller hi
    have hne : p ≠ job := by rintro rfl; exact hnone t ht
    exact ⟨⟨conn, (Function.update_of_ne hne _ _).trans hconn⟩, hnot, hone,
      fun u hu => hnone u (hold hu).2⟩
  · intro u p hu
    obtain ⟨hut, hu'⟩ := hold hu
    obtain ⟨halloc, hnot, hone⟩ := h.worker hu'
    have hne : p ≠ job := by rintro rfl; exact hut (huniq u hu')
    refine ⟨fun hnone => halloc ?_, hnot, fun v hv => hone v (hold hv).2⟩
    exact (Function.update_of_ne hne _ _).symm.trans hnone

theorem Owned.workerStep (h : Owned s ps) : ∃ ps', Owned (s.workerStep t) ps' := by
  unfold PoolState.workerStep
  split
  · rename_i ht
    exact (h.addIdle 1).wake fun p hp => by cases ht.symm.trans hp
  · rename_i ht
    exact h.wake fun p hp => by cases ht.symm.trans hp
  · rename_i ht
    exact ⟨ps, h.finish ht (by split_ifs <;> simp)⟩
  · split_ifs
    · exact ⟨ps, h.takeExit⟩
    · exact ⟨ps, h.setWorker .ready (by simp)⟩
  · exact ⟨ps, h⟩

theorem Owned.createWorker (h : Owned s ps) : Owned s.createWorker ps := by
  refine h.congr rfl fun u p hu => ?_
  rcases eq_or_ne u s.created with rfl | hne
  · simp [PoolState.createWorker] at hu
  · simpa [PoolState.createWorker, hne] using hu

theorem Owned.createWorkers (h : Owned s ps) (k : ℕ) (oks : List Bool) :
    Owned (s.createWorkers k oks) ps := by
  induction k generalizing s oks with
  | zero => exact h
  | succ k ih =>
    unfold PoolState.createWorkers
    split_ifs
    · exact h
    · exact ih h.createWorker _
    · exact ih h _

theorem Owned.scaleUp (h : Owned s ps) (oks : List Bool) : Owned (s.scaleUp oks) ps := by
  unfold PoolState.scaleUp
  split_ifs
  · exact h.createWorkers _ _
  · exact h

variable [DecidableEq ι] {i : ι}

theorem Owned.submit (h : Owned s ps) (conn : ConnPtr) (mem : Option JobPtr) :
    Owned (s.submit i conn mem) ps := by
  rcases submit_cases s i conn mem with hsame | ⟨job, -, hfree, hsubmit⟩
  · rwa [hsame]
  · rw [hsubmit]
    have hnew : ∀ {p}, s.jobs p ≠ none → p ≠ job := by rintro p hp rfl; exact hp hfree
    constructor
    · refine h.linked.congr fun p hmem => ?_
      exact Function.update_of_ne (hnew (h.linked.chain.mem hmem)) _ _
    · exact h.size
    · exact h.order
    · intro j p hj
      rcases eq_or_ne j i with rfl | hne
      · obtain rfl : job = p := by simpa using hj
        refine ⟨⟨conn, Function.update_self _ _ _⟩, ?_, ?_, ?_⟩
        · exact fun hmem => h.linked.chain.mem hmem hfree
        · intro k hk
          by_contra hkj
          obtain ⟨⟨c, hc⟩, -⟩ := h.caller (by simpa [hkj] using hk)
          rw [hfree] at hc
          cases hc
        · exact fun u hu => (h.worker hu).1 hfree
      · have hj' : s.callers j = some p := by simpa [hne] using hj
        obtain ⟨⟨c, hc⟩, hnot, hone, hnone⟩ := h.caller hj'
        have hpj : p ≠ job := hnew (by rw [hc]; exact Option.some_ne_none _)
        refine ⟨⟨c, (Function.update_of_ne hpj _ _).trans hc⟩, hnot, fun k hk => ?_, hnone⟩
        rcases eq_or_ne k i with rfl | hki
        · exact absurd (by simpa using hk) hpj.symm
        · exact hone k (by simpa [hki] using hk)
    · intro u p hu
      obtain ⟨halloc, hnot, hone⟩ := h.worker hu
      refine ⟨?_, hnot, hone⟩
      simpa [hnew halloc] using halloc

theorem Owned.enqueue (h : Owned s ps) (hi : s.callers i = some job) :
    ∃ conn, Owned (s.enqueue i job) (ps ++ [(job, conn)]) := by
  obtain ⟨⟨conn, hjob⟩, hnot, hone, hnone⟩ := h.caller hi
  -- linking the job changes no other node than the last one of the queue
  have hkeep : ∀ {p}, p ∉ ps.map Prod.fst → (s.enqueue i job).jobs p = s.jobs p := by
    intro p hp
    cases htail : s.pool.tail with
    | none => simp only [PoolState.enqueue, htail, linkLast]
    | some tail =>
      simp only [PoolState.enqueue, htail, linkLast]
      refine setNext_of_ne ?_
      rintro rfl
      exact hp (List.mem_of_getLast? (h.linked.tail_eq.symm.trans htail))
  have hcallers : ∀ {j p}, (s.enqueue i job).callers j = some p → j ≠ i ∧ s.callers j = some p := by
    intro j p hj
    rcases eq_or_ne j i with rfl | hne
    · simp [PoolState.enqueue] at hj
    · exact ⟨hne, by simpa [PoolState.enqueue, hne] using hj⟩
  refine ⟨conn, ?_⟩
  constructor
  · exact h.linked.push hjob hnot
  · simp [PoolState.enqueue, h.size]
  · simp only [PoolState.enqueue, hjob, ← h.order, List.map_append, List.append_assoc]
    rfl
  · intro j p hj
    obtain ⟨hji, hj'⟩ := hcallers hj
    obtain ⟨hp, hq, huniq, hwork⟩ := h.caller hj'
    have hpj : p ≠ job := by rintro rfl; exact hji (hone j hj')
    refine ⟨?_, by simp [hq, hpj], fun k hk => huniq k (hcallers hk).2, hwork⟩
    rwa [hkeep hq]
  · intro u p hu
    obtain ⟨halloc, hq, huniq⟩ := h.worker hu
    have hpj : p ≠ job := by rintro rfl; exact hnone u hu
    refine ⟨?_, by simp [hq, hpj], huniq⟩
    rwa [hkeep hq]

theorem Owned.submitLocked (h : Owned s ps) (oks : List Bool) :
    ∃ ps', Owned (s.submitLocked i oks) ps' := by
  unfold PoolState.submitLocked
  split
  · exact ⟨ps, h⟩
  · rename_i hi
    obtain ⟨conn, hq⟩ := h.enqueue hi
    exact ⟨_, hq.scaleUp oks⟩

omit [DecidableEq ι] in
theorem Owned.destroyStep (h : Owned s ps) : Owned s.destroyStep ps := by
  obtain ⟨shutdown, destroyer, hdestroy⟩ := destroyStep_eq s
  rw [hdestroy]
  exact h.congr rfl fun _ _ ht => ht

theorem owned_step (h : ∃ ps, Owned s ps) (e : PoolEvent ι) : ∃ ps, Owned (s.step e) ps := by
  obtain ⟨ps, h⟩ := h
  unfold step
  split_ifs
  · exact ⟨ps, h⟩
  · cases e with
    | submit i conn mem => exact ⟨ps, h.submit conn mem⟩
    | submitLocked i oks => exact h.submitLocked oks
    | maybeShrink =>
      refine ⟨ps, h.congr ?_ fun _ _ ht => ht⟩
      simp only [handle, ThreadPool.maybeShrink]
      split_ifs <;> rfl
    | destroy => exact ⟨ps, h.destroyStep⟩
    | worker t =>
      simp only [handle]
      split_ifs
      · exact h.workerStep
      · exact ⟨ps, h⟩

theorem run_owned (maxThreads n : ℕ) (minThreads : ℤ) (inputs : List (PoolEvent ι)) :
    ∃ ps, Owned (run step (create maxThreads n minThreads) inputs) ps :=
  run_invariant (I := fun s => ∃ ps, Owned s ps) (fun _ e h => owned_step h e)
    ⟨[], owned_create⟩ inputs

omit [DecidableEq ι] in
/-- A worker that has the lock exits only when no job is queued. -/
theorem Owned.wake_exited (h : Owned s ps) (hexit : (s.wake t).workers t = .exited) :
    s.workers t = .exited ∨ s.pool.head = none := by
  have hempty : s.pool.queueSize = 0 → s.pool.head = none := by
    intro hsize
    rw [h.linked.head_eq_none_iff]
    rw [h.size] at hsize
    exact List.eq_nil_of_length_eq_zero (by omega)
  cases hwoken : s.pool.woken with
  | wait => simp [PoolState.wake, hwoken, PoolState.setWorker] at hexit
  | exitShutdown => exact .inr (hempty (woken_exitShutdown hwoken).2)
  | exitShrink => exact .inr (hempty (woken_exitShrink hwoken).2)
  | dequeue =>
    simp only [PoolState.wake, hwoken, PoolState.dequeue, PoolState.addIdle] at hexit
    split at hexit
    · exact .inr ‹_›
    · split at hexit
      · exact .inl hexit
      · simp at hexit

theorem Owned.exit (h : Owned s ps) (ht : s.workers t = .ready ∨ s.workers t = .waiting)
    (hexit : (s.step (.worker t)).workers t = .exited) : s.pool.head = none := by
  have hlive : s.workers t ≠ .exited := by
    rcases ht with ht | ht <;> simp [ht]
  unfold step at hexit
  split_ifs at hexit
  · exact absurd hexit hlive
  · simp only [handle] at hexit
    split_ifs at hexit
    · unfold PoolState.workerStep at hexit
      rcases ht with ht | ht
      · simp only [ht] at hexit
        exact ((h.addIdle 1).wake_exited hexit).resolve_left hlive
      · simp only [ht] at hexit
        exact (h.wake_exited hexit).resolve_left hlive
    · exact absurd hexit hlive

theorem run_threadCount {maxThreads n : ℕ} (hn : n ≤ maxThreads) (minThreads : ℤ)
    (inputs : List (PoolEvent ι)) :
    min minThreads n ≤ (run step (create maxThreads n minThreads) inputs).pool.threadCount ∧
    (run step (create maxThreads n minThreads) inputs).pool.threadCount ≤ maxThreads := by
  let I (s : PoolState ι) : Prop := s.pool.maxThreads = maxThreads ∧
    s.pool.minThreads = minThreads ∧ min minThreads n ≤ s.pool.threadCount ∧
    s.pool.threadCount ≤ maxThreads
  have hstep : ∀ (s : PoolState ι) e, I s → I (s.step e) := by
    rintro s e ⟨hmax, hmin, hlow, hhigh⟩
    obtain ⟨hcounts, hmax', hmin'⟩ := step_counts s e
    refine ⟨hmax'.trans hmax, hmin'.trans hmin, ?_⟩
    cases hcounts with
    | keep threads marks => rw [threads]; exact ⟨hlow, hhigh⟩
    | leave may threads marks =>
      have habove := may.2
      omega
    | grow threads room marks => omega
    | mark he above threads more excess => rw [threads]; exact ⟨hlow, hhigh⟩
  have hstart : I (create maxThreads n minThreads) :=
    ⟨rfl, rfl, by simp only [create]; omega, by simpa [create] using hn⟩
  exact (run_invariant hstep hstart inputs).2.2

/--
The pool loses, duplicates and reorders no job: what was dequeued, followed by
what is queued, is what was accepted. No worker leaves for an exit while a job
is queued, and the number of threads keeps its bounds.
-/
theorem jobs_in_order (maxThreads n : ℕ) (hn : n ≤ maxThreads) (minThreads : ℤ)
    (inputs : List (PoolEvent ι)) :
    let s := run step (create maxThreads n minThreads) inputs
    (∃ ps, Chain s.jobs s.pool.head ps ∧ s.pool.queueSize = ps.length ∧
      s.pool.tail = (ps.map Prod.fst).getLast? ∧ (s.pool.tail = none ↔ s.pool.head = none) ∧
      s.dequeued ++ ps.map Prod.snd = s.accepted) ∧
    (∀ t, s.workers t = .ready ∨ s.workers t = .waiting →
      (s.step (.worker t)).workers t = .exited → s.pool.head = none) ∧
    min minThreads n ≤ s.pool.threadCount ∧ s.pool.threadCount ≤ maxThreads := by
  obtain ⟨ps, h⟩ := run_owned maxThreads n minThreads inputs
  have hcount := run_threadCount hn minThreads inputs
  refine ⟨⟨ps, h.linked.chain, h.size, h.linked.tail_eq, h.linked.tail_eq_none_iff, h.order⟩,
    ?_, hcount⟩
  intro t ht hexit
  exact h.exit ht hexit

/-- Two jobs submitted, one of them dequeued. -/
theorem jobs_in_order_two :
    let s := run step (create 2 2 1)
      [.submit 0 7 (some 0), .submit 1 8 (some 1), .submitLocked 1 [], .submitLocked (0 : ℕ) [],
        .worker 0]
    s.dequeued = [8] ∧ s.accepted = [8, 7] ∧ ∃ ps, Chain s.jobs s.pool.head ps ∧
      s.pool.queueSize = ps.length ∧ s.pool.tail = (ps.map Prod.fst).getLast? ∧
      (s.pool.tail = none ↔ s.pool.head = none) ∧ s.dequeued ++ ps.map Prod.snd = s.accepted :=
  ⟨by decide +kernel, by decide +kernel, (jobs_in_order 2 2 (Nat.le_refl 2) 1 _).1⟩

end PoolState

end ChatServer
