import Mathlib.Data.Fintype.Basic
import ChatServer.Pool.Counts

/-! # Joins

`threadpool_destroy` joins the handles below the number of threads it reads. A
shrink exit lowers that number but leaves the array as it is, so the joins meet
every live worker only if the workers that exit are the last ones of the array.
-/

namespace ChatServer

open Library

namespace PoolState

open ThreadPool

variable {ι : Type*} {s s' : PoolState ι} {t : ThreadId}

/-- A worker thread that has not returned. -/
def Live (s : PoolState ι) (t : ThreadId) : Prop := t < s.created ∧ s.workers t ≠ .exited

/-- The live workers have their handles between two indices of the array. -/
def Covered (s : PoolState ι) (i n : ℤ) : Prop :=
  ∀ t, s.Live t → ∃ j, i ≤ j ∧ j < n ∧ s.pool.threads j = some t

/--
At the joins every live worker has its handle below the snapshot, and at the
release of the pool no worker is live.
-/
def JoinSafe (s : PoolState ι) : Prop :=
  (∀ n i, s.destroyer = .joining n i → s.Covered 0 n) ∧
    (s.destroyer = .released → ∀ t, ¬ s.Live t)

/-- The next step of a worker takes a marked exit. -/
def TakesExit (s : PoolState ι) (t : ThreadId) : Prop :=
  (s.AtLock t ∧ s.pool.woken = .exitShrink) ∨
    (¬ s.halted ∧ t < s.created ∧ s.workers t = .leaving ∧ s.pool.mayLeave)

instance : Decidable (s.TakesExit t) := inferInstanceAs (Decidable (_ ∨ _))

/-- `threadpool_destroy` has not read the number of threads. -/
def BeforeSnapshot (s : PoolState ι) : Prop := s.destroyer = .notCalled ∨ s.destroyer = .flagged

instance : Decidable s.BeforeSnapshot := inferInstanceAs (Decidable (_ ∨ _))

/--
Before the snapshot, a worker takes a marked exit only if the last handle of
the array is its own or that of a worker that has returned; and the pool is
destroyed only when the submits that came before it have returned.
-/
def ExitsLast (s : PoolState ι) : PoolEvent ι → Prop
  | .worker t => s.BeforeSnapshot → s.TakesExit t →
      ∀ u ∈ s.pool.threads (s.pool.threadCount - 1), u = t ∨ s.workers u = .exited
  | .destroy => s.destroyer = .notCalled → ∀ i, s.callers i = none
  | _ => True

instance [Fintype ι] (s : PoolState ι) : (e : PoolEvent ι) → Decidable (s.ExitsLast e)
  | .worker _ => inferInstanceAs (Decidable (_ → _ → _))
  | .destroy => inferInstanceAs (Decidable (_ → _))
  | .submit _ _ _ => isTrue trivial
  | .submitLocked _ _ => isTrue trivial
  | .maybeShrink => isTrue trivial

/-- What a run keeps before, during and after the joins. -/
structure Joinable (s : PoolState ι) : Prop where
  before : s.BeforeSnapshot → 0 ≤ s.pool.threadCount ∧ s.Covered 0 s.pool.threadCount
  quiet : s.destroyer ≠ .notCalled → s.pool.shutdown = true ∧ ∀ i, s.callers i = none
  joining : ∀ {n i}, s.destroyer = .joining n i → 0 ≤ i ∧ s.Covered i n
  released : s.destroyer = .released → ∀ t, ¬ s.Live t

theorem Joinable.safe (h : s.Joinable) : s.JoinSafe := by
  constructor
  · intro n i hi t ht
    obtain ⟨hpos, hcov⟩ := h.joining hi
    obtain ⟨j, hij, hjn, hj⟩ := hcov t ht
    exact ⟨j, by omega, hjn, hj⟩
  · exact h.released

theorem joinable_create {maxThreads n : ℕ} {minThreads : ℤ} :
    (create maxThreads n minThreads : PoolState ι).Joinable := by
  refine ⟨?_, fun h => absurd rfl h, nofun, nofun⟩
  intro _
  refine ⟨Int.natCast_nonneg n, fun t ht => ?_⟩
  have hlt : t < n := ht.1
  exact ⟨t, Int.natCast_nonneg t, Int.ofNat_lt.mpr hlt, by simp [create, hlt]⟩

/-- The parts of a state that no worker changes. -/
def fixed (s : PoolState ι) : (ℤ → Option ThreadId) × Bool × ThreadId × (ι → Option JobPtr) ×
    DestroyPhase :=
  (s.pool.threads, s.pool.shutdown, s.created, s.callers, s.destroyer)

/-- A step of a worker: it changes its own phase, and the number of threads if it takes an exit. -/
structure Moved (s s' : PoolState ι) (t : ThreadId) (takes : Prop) : Prop where
  fixed : s'.fixed = s.fixed
  others : ∀ u, u ≠ t → s'.workers u = s.workers u
  gone : s.workers t = .exited → s'.workers t = .exited
  count : s'.pool.threadCount = s.pool.threadCount ∨
    (takes ∧ s'.workers t = .exited ∧ s'.pool.threadCount = s.pool.threadCount - 1)

theorem moved_dequeue {takes : Prop} (ht : s.workers t ≠ .exited) :
    Moved s (s.dequeue t) t takes := by
  unfold dequeue
  split
  · exact ⟨rfl, fun _ _ => rfl, id, .inl rfl⟩
  · split
    · exact ⟨rfl, fun _ _ => rfl, id, .inl rfl⟩
    · exact ⟨rfl, fun u hu => Function.update_of_ne hu _ _, fun h => absurd h ht, .inl rfl⟩

theorem moved_wake {takes : Prop} (k : ℤ) (ht : s.workers t ≠ .exited)
    (htakes : s.pool.woken = .exitShrink → takes) : Moved s ((s.addIdle k).wake t) t takes := by
  unfold wake
  split
  · exact ⟨rfl, fun u hu => Function.update_of_ne hu _ _, fun h => absurd h ht, .inl rfl⟩
  · exact ⟨rfl, fun u hu => Function.update_of_ne hu _ _, fun h => absurd h ht, .inl rfl⟩
  · exact ⟨rfl, fun u hu => Function.update_of_ne hu _ _, fun h => absurd h ht,
      .inr ⟨htakes ‹_›, Function.update_self _ _ _, rfl⟩⟩
  · have hmoved : Moved ((s.addIdle k).addIdle (-1)) (((s.addIdle k).addIdle (-1)).dequeue t) t
        takes := moved_dequeue ht
    obtain ⟨hfixed, hothers, hgone, hcount⟩ := hmoved
    exact ⟨hfixed, hothers, hgone, hcount⟩

theorem moved_worker (hs : ¬ s.halted) (ht : t < s.created) :
    Moved s (s.workerStep t) t (s.TakesExit t) := by
  unfold workerStep
  split
  · rename_i hready
    exact moved_wake 1 (by simp [hready]) fun hwoken => .inl ⟨⟨hs, ht, .inl hready⟩, hwoken⟩
  · rename_i hwait
    have h : Moved s ((s.addIdle 0).wake t) t (s.TakesExit t) :=
      moved_wake 0 (by simp [hwait]) fun hwoken => .inl ⟨⟨hs, ht, .inr hwait⟩, hwoken⟩
    rwa [addIdle_zero] at h
  · rename_i hwork
    exact ⟨rfl, fun u hu => Function.update_of_ne hu _ _, fun h => by simp [hwork] at h, .inl rfl⟩
  · rename_i hleave
    split_ifs with hmay
    · exact ⟨rfl, fun u hu => Function.update_of_ne hu _ _, fun h => by simp [hleave] at h,
        .inr ⟨.inr ⟨hs, ht, hleave, hmay⟩, Function.update_self _ _ _, rfl⟩⟩
    · exact ⟨rfl, fun u hu => Function.update_of_ne hu _ _, fun h => by simp [hleave] at h,
        .inl rfl⟩
  · exact ⟨rfl, fun _ _ => rfl, id, .inl rfl⟩

theorem Moved.live {takes : Prop} {u : ThreadId} (h : Moved s s' t takes) (hu : s'.Live u) :
    s.Live u := by
  have hfixed := h.fixed
  simp only [PoolState.fixed, Prod.mk.injEq] at hfixed
  refine ⟨hfixed.2.2.1 ▸ hu.1, fun hgone => hu.2 ?_⟩
  rcases eq_or_ne u t with rfl | hne
  · exact h.gone hgone
  · rwa [h.others u hne]

theorem TakesExit.live (h : s.TakesExit t) : s.Live t := by
  rcases h with ⟨⟨-, ht, hphase⟩, -⟩ | ⟨-, ht, hphase, -⟩
  · exact ⟨ht, by rcases hphase with hphase | hphase <;> simp [hphase]⟩
  · exact ⟨ht, by simp [hphase]⟩

theorem Joinable.moved (h : s.Joinable) (hm : Moved s s' t (s.TakesExit t))
    (hlast : s.BeforeSnapshot → s.TakesExit t →
      ∀ u ∈ s.pool.threads (s.pool.threadCount - 1), u = t ∨ s.workers u = .exited) :
    s'.Joinable := by
  have hfixed := hm.fixed
  simp only [PoolState.fixed, Prod.mk.injEq] at hfixed
  obtain ⟨hthreads, hshut, -, hcallers, hdestroyer⟩ := hfixed
  have hcov : ∀ {i n}, s.Covered i n → s'.Covered i n := by
    intro i n hcov u hu
    obtain ⟨j, hij, hjn, hj⟩ := hcov u (hm.live hu)
    exact ⟨j, hij, hjn, by rwa [hthreads]⟩
  constructor
  · intro hbefore
    have hbefore' : s.BeforeSnapshot := by rwa [BeforeSnapshot, ← hdestroyer]
    obtain ⟨hpos, hcovered⟩ := h.before hbefore'
    rcases hm.count with hcount | ⟨htakes, hexited, hcount⟩
    · rw [hcount]
      exact ⟨hpos, hcov hcovered⟩
    · obtain ⟨k, hk0, hkn, -⟩ := hcovered t htakes.live
      refine ⟨by omega, fun u hu => ?_⟩
      have hut : u ≠ t := by
        rintro rfl
        exact hu.2 hexited
      obtain ⟨j, hij, hjn, hj⟩ := hcovered u (hm.live hu)
      -- the handle that the count leaves behind is not that of a live worker
      have hne : j ≠ s.pool.threadCount - 1 := by
        rintro rfl
        exact (hlast hbefore' htakes u hj).elim hut (hm.live hu).2
      exact ⟨j, hij, by omega, by rwa [hthreads]⟩
  · rw [hdestroyer, hshut, hcallers]
    exact h.quiet
  · intro n i hj
    rw [hdestroyer] at hj
    exact ⟨(h.joining hj).1, hcov (h.joining hj).2⟩
  · intro hr u hu
    rw [hdestroyer] at hr
    exact h.released hr u (hm.live hu)

theorem Joinable.createWorker (h : s.Joinable) (hs : s.destroyer = .notCalled) :
    s.createWorker.Joinable := by
  constructor
  · rintro -
    obtain ⟨hpos, hcov⟩ := h.before (.inl hs)
    refine ⟨by simp only [PoolState.createWorker]; omega, fun u hu => ?_⟩
    rcases eq_or_ne u s.created with rfl | hne
    · refine ⟨s.pool.threadCount, hpos, ?_, Function.update_self _ _ _⟩
      simp only [PoolState.createWorker]
      omega
    · have hlive : s.Live u := by
        have hlt : u < s.created + 1 := hu.1
        refine ⟨Nat.lt_of_le_of_ne (Nat.le_of_lt_succ hlt) hne, fun hgone => hu.2 ?_⟩
        simpa [PoolState.createWorker, hne] using hgone
      obtain ⟨j, hij, hjn, hj⟩ := hcov u hlive
      have hjc : j ≠ s.pool.threadCount := by omega
      refine ⟨j, hij, ?_, (Function.update_of_ne hjc _ _).trans hj⟩
      simp only [PoolState.createWorker]
      omega
  · exact fun hd => absurd hs hd
  · intro n i hj
    cases hs.symm.trans hj
  · intro hr
    cases hs.symm.trans hr

theorem Joinable.createWorkers (h : s.Joinable) (hs : s.destroyer = .notCalled) (k : ℕ)
    (oks : List Bool) : (s.createWorkers k oks).Joinable := by
  induction k generalizing s oks with
  | zero => exact h
  | succ k ih =>
    unfold PoolState.createWorkers
    split_ifs
    · exact h
    · exact ih (h.createWorker hs) hs _
    · exact ih h hs _

theorem Joinable.scaleUp (h : s.Joinable) (hs : s.destroyer = .notCalled) (oks : List Bool) :
    (s.scaleUp oks).Joinable := by
  unfold PoolState.scaleUp
  split_ifs
  · exact h.createWorkers hs _ _
  · exact h

/-- The parts of a state that the joins depend on, the callers apart. -/
def joined (s : PoolState ι) : (ℤ → Option ThreadId) × ℤ × Bool × ThreadId ×
    (ThreadId → WorkerPhase) × DestroyPhase :=
  (s.pool.threads, s.pool.threadCount, s.pool.shutdown, s.created, s.workers, s.destroyer)

theorem Joinable.congr (h : s.Joinable) (hj : s'.joined = s.joined)
    (hc : s.pool.shutdown = true → (∀ i, s.callers i = none) → ∀ i, s'.callers i = none) :
    s'.Joinable := by
  simp only [joined, Prod.mk.injEq] at hj
  obtain ⟨hthreads, hcount, hshut, hcreated, hworkers, hdestroyer⟩ := hj
  have hlive : ∀ t, s'.Live t ↔ s.Live t := fun t => by rw [Live, Live, hcreated, hworkers]
  have hcov : ∀ i n, s'.Covered i n ↔ s.Covered i n := fun i n => by
    simp only [Covered, hlive, hthreads]
  constructor
  · intro hb
    rw [hcount, hcov]
    exact h.before (by rwa [BeforeSnapshot, ← hdestroyer])
  · intro hd
    rw [hdestroyer] at hd
    obtain ⟨hs, hnone⟩ := h.quiet hd
    exact ⟨hshut.trans hs, hc hs hnone⟩
  · intro n i hd
    rw [hdestroyer] at hd
    rw [hcov]
    exact h.joining hd
  · intro hd t ht
    rw [hdestroyer] at hd
    exact h.released hd t ((hlive t).mp ht)

theorem Joinable.destroyStep (h : s.Joinable)
    (hq : s.destroyer = .notCalled → ∀ i, s.callers i = none) : s.destroyStep.Joinable := by
  unfold PoolState.destroyStep
  split
  · rename_i hd
    exact ⟨fun _ => h.before (.inl hd), fun _ => ⟨rfl, hq hd⟩, nofun, nofun⟩
  · rename_i hd
    refine ⟨fun hb => ?_, fun _ => h.quiet (by simp [hd]), fun hj => ?_, nofun⟩
    · rcases hb with hb | hb <;> cases hb
    · cases hj
      exact ⟨Int.le_refl 0, (h.before (.inr hd)).2⟩
  · rename_i n i hd
    obtain ⟨hpos, hcov⟩ := h.joining hd
    have hquiet := h.quiet (by simp [hd])
    split_ifs with hlt
    · split
      · exact h
      · rename_i t ht
        split_ifs with hgone
        · refine ⟨fun hb => ?_, fun _ => hquiet, fun hj => ?_, nofun⟩
          · rcases hb with hb | hb <;> cases hb
          · cases hj
            refine ⟨by omega, fun u hu => ?_⟩
            obtain ⟨j, hij, hjn, hj⟩ := hcov u hu
            have hne : j ≠ i := by
              rintro rfl
              obtain rfl := Option.some.inj (hj.symm.trans ht)
              exact hu.2 hgone
            exact ⟨j, by omega, hjn, hj⟩
        · exact h
    · refine ⟨fun hb => ?_, fun _ => hquiet, nofun, fun _ u hu => ?_⟩
      · rcases hb with hb | hb <;> cases hb
      · obtain ⟨j, hij, hjn, -⟩ := hcov u hu
        omega
  · exact h

variable [DecidableEq ι]

theorem Joinable.submit (h : s.Joinable) (i : ι) (conn : ConnPtr) (mem : Option JobPtr) :
    (s.submit i conn mem).Joinable := by
  rcases submit_cases s i conn mem with hsame | ⟨job, hbusy, -, hsubmit⟩
  · rwa [hsame]
  · rw [hsubmit]
    refine h.congr rfl fun hs => ?_
    exact absurd (.inl hs) hbusy

theorem Joinable.submitLocked (h : s.Joinable) (i : ι) (oks : List Bool) :
    (s.submitLocked i oks).Joinable := by
  unfold PoolState.submitLocked
  split
  · exact h
  · rename_i job hi
    have hd : s.destroyer = .notCalled := by
      by_contra hd
      cases hi.symm.trans ((h.quiet hd).2 i)
    have hq : (s.enqueue i job).Joinable := by
      refine h.congr rfl fun _ hnone => ?_
      cases hi.symm.trans (hnone i)
    exact hq.scaleUp hd oks

theorem joinable_step (h : s.Joinable) (e : PoolEvent ι) (he : s.ExitsLast e) :
    (s.step e).Joinable := by
  unfold step
  split_ifs with hs
  · exact h
  · cases e with
    | submit i conn mem => exact h.submit i conn mem
    | submitLocked i oks => exact h.submitLocked i oks
    | maybeShrink =>
      refine h.congr ?_ fun _ hnone => hnone
      simp only [handle, ThreadPool.maybeShrink]
      split_ifs <;> rfl
    | destroy => exact h.destroyStep he
    | worker t =>
      simp only [handle]
      split_ifs with ht
      · exact h.moved (moved_worker hs ht) he
      · exact h

/--
A run in which every marked exit before the snapshot takes the last handle of
the array along: the joins wait for every worker.
-/
theorem join_safe_of_exits_last (maxThreads n : ℕ) (minThreads : ℤ) (inputs : List (PoolEvent ι))
    (h : Along step ExitsLast (create maxThreads n minThreads) inputs) :
    JoinSafe (run step (create maxThreads n minThreads) inputs) := by
  have hrun : Joinable (run step (create maxThreads n minThreads) inputs) :=
    run_invariant_along (I := Joinable) (fun _ e hs he => joinable_step hs e he) joinable_create h
  exact hrun.safe

/-- The last worker leaves, and the joins wait for the other. -/
theorem join_safe_last_left :
    let s := run step (create 2 2 1 : PoolState Unit)
      [.worker 0, .worker 1, .maybeShrink, .worker 1, .destroy, .destroy, .worker 0, .destroy,
        .destroy]
    s.destroyer = .released ∧ s.JoinSafe :=
  ⟨by decide +kernel, join_safe_of_exits_last 2 2 1 _ (by decide +kernel)⟩

/-- The first worker leaves, and the pool is released while the other waits on it. -/
theorem join_unsafe_first_left :
    ¬ ∀ (maxThreads n : ℕ) (minThreads : ℤ) (inputs : List (PoolEvent Unit)),
      JoinSafe (run step (create maxThreads n minThreads) inputs) := by
  intro h
  have hsafe := h 2 2 1
    [.worker 0, .worker 1, .maybeShrink, .worker 0, .destroy, .destroy, .destroy, .destroy]
  exact hsafe.2 (by decide +kernel) 1 (by unfold Live; decide +kernel)

end PoolState

end ChatServer
