import Mathlib.Data.Nat.Pairing
import ChatServer.Pool.Progress

/-! # Every accepted job is taken

On a run that lets every worker step again and again, a job accepted before
the shutdown is dequeued. A worker that is awake brings this nearer: it takes
a job, or leaves for a marked exit, of which there are no new ones while a job
is queued, or ends the job it has.
-/

namespace ChatServer

open Library PoolState

variable {ι : Type*}

/-- How far a worker is from its next look at the queue. -/
def WorkerPhase.rank : WorkerPhase → ℕ
  | .working _ => 2
  | .leaving => 1
  | .ready | .waiting | .exited => 0

namespace WaitState

variable [DecidableEq ι] {s : WaitState ι} {t : ThreadId} {i : ℕ}

/-- The `i`-th job is queued in a pool that works. -/
structure Pending (i : ℕ) (s : WaitState ι) : Prop where
  ready : s.Ready
  live : ¬ s.pool.halted
  accepted : i < s.pool.accepted.length
  waits : s.pool.dequeued.length ≤ i

/-- The jobs before it, the marked exits, and how far a worker is from the queue. -/
def distance (i : ℕ) (s : WaitState ι) (t : ThreadId) : ℕ ×ₗ ℕ ×ₗ ℕ :=
  toLex (i + 1 - s.pool.dequeued.length,
    toLex (s.pool.pool.markedExits.toNat, (s.pool.workers t).rank))

omit [DecidableEq ι] in
theorem Pending.queued (h : Pending i s) : s.pool.pool.queueSize ≠ 0 := by
  obtain ⟨⟨ps, howned⟩, -⟩ := h.ready.counted
  have hlen := congrArg List.length howned.order
  have hlt := h.accepted
  have hle := h.waits
  rw [List.length_append, List.length_map] at hlen
  rw [howned.size]
  omega

/-- A job that has left the queue, or a pool that is gone. -/
def Taken (i : ℕ) (s : WaitState ι) : Prop := i < s.pool.dequeued.length ∨ s.pool.halted

omit [DecidableEq ι] in
/-- With a job fewer before it, or an exit fewer marked, some awake worker is nearer. -/
theorem Pending.nearer {s' : WaitState ι} (h : Pending i s) (h' : Pending i s')
    (hless : s.pool.dequeued.length < s'.pool.dequeued.length ∨
      (s'.pool.dequeued = s.pool.dequeued ∧
        s'.pool.pool.markedExits < s.pool.pool.markedExits)) :
    ∃ u, s'.Awake u ∧ distance i s' u < distance i s t := by
  obtain ⟨u, hu⟩ := h'.ready.attended h'.queued
  refine ⟨u, hu, Prod.Lex.toLex_lt_toLex.mpr ?_⟩
  have hle := h.waits
  have hmarks := h'.ready.counted.2
  rcases hless with hless | ⟨hsame, hless⟩
  · exact .inl (by simp only; omega)
  · refine .inr ⟨by rw [hsame], Prod.Lex.toLex_lt_toLex.mpr (.inl ?_)⟩
    simp only
    omega

/-- A step of some worker, which finds a job in the queue. -/
theorem Pending.works_step (h : Pending i s) (ht : s.Awake t) {u : ThreadId} {k : ℕ}
    (hu : u < s.pool.created) (hlive : s.pool.workers u ≠ .exited)
    (h' : Pending i ⟨s.pool.step (.worker u), s.blockedAfter k (.worker u)⟩) :
    let s' : WaitState ι := ⟨s.pool.step (.worker u), s.blockedAfter k (.worker u)⟩
    (∃ v, s'.Awake v ∧ distance i s' v < distance i s t) ∨
      (s'.Awake t ∧ distance i s' t = distance i s t ∧ u ≠ t) := by
  intro s'
  have hstep : s'.pool = s.pool.workerStep u := step_worker h.live hu
  obtain ⟨⟨ps, howned⟩, -⟩ := h.ready.counted
  have hother (hne : u ≠ t) (hdeq : s'.pool.dequeued = s.pool.dequeued)
      (hmarks : s'.pool.pool.markedExits = s.pool.pool.markedExits) :
      s'.Awake t ∧ distance i s' t = distance i s t ∧ u ≠ t := by
    have hphase : s'.pool.workers t = s.pool.workers t :=
      worker_step_of_ne (fun he => hne (PoolEvent.worker.inj he)) ht.1.1
    refine ⟨⟨⟨ht.1.1.trans_le (created_step _ _), hphase ▸ ht.1.2⟩, ?_⟩, ?_, hne⟩
    · simp only [s', blockedAfter]
      split_ifs
      · simp [ht.2, hne.symm]
      · exact ht.2
    · rw [distance, distance, hdeq, hmarks, hphase]
  have hown (he : u = t) (hdeq : s'.pool.dequeued = s.pool.dequeued)
      (hmarks : s'.pool.pool.markedExits = s.pool.pool.markedExits)
      (hafter : s'.pool.workers t ≠ .waiting ∧ s'.pool.workers t ≠ .exited)
      (hrank : (s'.pool.workers t).rank < (s.pool.workers t).rank) :
      ∃ v, s'.Awake v ∧ distance i s' v < distance i s t := by
    subst he
    refine ⟨u, ⟨⟨hu.trans_le (created_step _ _), hafter.2⟩, ?_⟩, ?_⟩
    · simp only [s', blockedAfter]
      rw [if_neg hafter.1]
      exact ht.2
    · rw [distance, distance, hdeq, hmarks]
      refine Prod.Lex.toLex_lt_toLex.mpr (.inr ⟨rfl, ?_⟩)
      exact Prod.Lex.toLex_lt_toLex.mpr (.inr ⟨rfl, hrank⟩)
  have hworks := howned.works h.queued hlive
  rw [← hstep] at hworks
  cases hworks with
  | take conn phase job working dequeued count =>
    exact .inl (h.nearer h' (.inl (by simp only [s'] at dequeued ⊢; simp [dequeued])))
  | done job phase after dequeued count marks =>
    by_cases he : u = t
    · refine .inl (hown he dequeued marks ?_ ?_)
      · subst he
        rcases after with after | after <;> simp [after]
      · subst he
        rcases after with after | after <;> simp [after, phase, WorkerPhase.rank]
    · exact .inr (hother he dequeued marks)
  | stay phase after dequeued count marks =>
    by_cases he : u = t
    · refine .inl (hown he dequeued marks ?_ ?_) <;> subst he <;>
        simp [after, phase, WorkerPhase.rank]
    · exact .inr (hother he dequeued marks)
  | leave may dequeued count marks =>
    refine .inl (h.nearer h' (.inr ⟨dequeued, ?_⟩))
    have hmarked : s'.pool.pool.markedExits = s.pool.pool.markedExits - 1 := marks
    simp only [s'] at hmarked
    omega

theorem Pending.quiet_step (h : Pending i s) (ht : s.Awake t) {e : PoolEvent ι} {k : ℕ}
    (hw : ∀ u, e ≠ .worker u) (h' : Pending i ⟨s.pool.step e, s.blockedAfter k e⟩) :
    let s' : WaitState ι := ⟨s.pool.step e, s.blockedAfter k e⟩
    (∃ v, s'.Awake v ∧ distance i s' v < distance i s t) ∨
      (s'.Awake t ∧ distance i s' t = distance i s t) := by
  intro s'
  have hquiet := step_quiet s.pool hw
  have hawake : s'.Awake t :=
    ⟨hquiet.live ht.1, fun hmem => ht.2 ((blockedAfter_sublist k hw).subset hmem)⟩
  have hsame (hmarks : s'.pool.pool.markedExits = s.pool.pool.markedExits) :
      distance i s' t = distance i s t := by
    rw [distance, distance, hmarks, hquiet.workers t ht.1.1, hquiet.dequeued]
  cases (step_counts s.pool e).1 with
  | keep threads marks => exact .inr ⟨hawake, hsame marks⟩
  | leave may threads marks =>
    refine .inl (h.nearer h' (.inr ⟨hquiet.dequeued, ?_⟩))
    have hless : (s.pool.step e).pool.markedExits < s.pool.pool.markedExits := by omega
    exact hless
  | grow threads room marks => exact .inr ⟨hawake, hsame marks⟩
  | mark he above threads more excess =>
    subst he
    obtain ⟨⟨ps, howned⟩, -⟩ := h.ready.counted
    have hpos : 0 < s.pool.pool.queueSize := by
      have hne := h.queued
      have hsize := howned.size
      omega
    have hkeep : s.pool.pool.maybeShrink = s.pool.pool := by
      simp only [ThreadPool.maybeShrink, if_pos hpos, ite_self]
    simp only [PoolState.step, if_neg h.live, PoolState.handle, hkeep] at more
    omega

theorem Pending.step (h : Pending i s) (ht : s.Awake t) (e : WaitEvent ι) :
    (s.step e).Taken i ∨ (Pending i (s.step e) ∧
      ((∃ u, (s.step e).Awake u ∧ distance i (s.step e) u < distance i s t) ∨
        ((s.step e).Awake t ∧ distance i (s.step e) t = distance i s t ∧
          ¬ ∃ choice, e = .pool (.worker t) choice))) := by
  by_cases hgone : (s.step e).Taken i
  · exact .inl hgone
  obtain ⟨hwaits, hlive⟩ := not_or.mp hgone
  have hready := h.ready.step (.inr h.queued) e hlive
  have hpending {e : PoolEvent ι} {k : ℕ}
      (hready : Ready ⟨s.pool.step e, s.blockedAfter k e⟩) (hlive : ¬ (s.pool.step e).halted)
      (hwaits : ¬ i < (s.pool.step e).dequeued.length) :
      Pending i ⟨s.pool.step e, s.blockedAfter k e⟩ :=
    ⟨hready, hlive, h.accepted.trans_le (accepted_step _ e).length_le, not_lt.mp hwaits⟩
  refine .inr ?_
  cases e with
  | spurious u =>
    refine ⟨⟨hready, h.live, h.accepted, h.waits⟩, .inr ⟨⟨ht.1, ?_⟩, rfl, by simp⟩⟩
    exact fun hmem => ht.2 (List.mem_of_mem_erase hmem)
  | pool e k =>
    simp only [WaitState.step] at hready hwaits hlive ⊢
    split_ifs at hready hwaits hlive ⊢ with hstuck
    · refine ⟨h, .inr ⟨ht, rfl, ?_⟩⟩
      rintro ⟨choice, ⟨⟩⟩
      rcases hstuck with hp | hb | hc
      · exact h.live hp
      · exact ht.2 hb
      · exact absurd ht.1.1 (not_lt.mpr hc)
    · by_cases hw : ∃ u, e = .worker u
      · obtain ⟨u, rfl⟩ := hw
        obtain ⟨hp, hnot⟩ := not_or.mp hstuck
        have hu := not_le.mp (not_or.mp hnot).2
        by_cases hexited : s.pool.workers u = .exited
        · have hsame : s.pool.step (.worker u) = s.pool := step_exited hp hu hexited
          have hblocked : s.blockedAfter k (.worker u) = s.blocked :=
            blockedAfter_exited (by rw [hsame, hexited])
          rw [hsame, hblocked]
          refine ⟨h, .inr ⟨ht, rfl, ?_⟩⟩
          rintro ⟨choice, ⟨⟩⟩
          exact ht.1.2 hexited
        · have h' := hpending hready hlive hwaits
          refine ⟨h', (h.works_step ht hu hexited h').imp_right ?_⟩
          rintro ⟨hawake, hsame, hne⟩
          refine ⟨hawake, hsame, ?_⟩
          rintro ⟨choice, ⟨⟩⟩
          exact hne rfl
      · have h' := hpending hready hlive hwaits
        have hw' : ∀ u, e ≠ .worker u := fun u hu => hw ⟨u, hu⟩
        refine ⟨h', (h.quiet_step ht hw' h').imp_right ?_⟩
        rintro ⟨hawake, hsame⟩
        refine ⟨hawake, hsame, ?_⟩
        rintro ⟨choice, ⟨⟩⟩
        exact hw' t rfl

theorem halted_step (h : s.pool.halted) (e : WaitEvent ι) : (s.step e).pool.halted := by
  cases e with
  | spurious u => exact h
  | pool e k =>
    have hstuck : s.Stuck e := by
      cases e with
      | worker t => exact .inl h
      | _ => exact h
    rwa [WaitState.step, if_pos hstuck]

/-- Before the shutdown flag is set, the pool works or has crashed. -/
theorem states_ready {maxThreads n : ℕ} {minThreads : ℤ} (hn : 0 < n) (hmin : 0 < minThreads)
    (es : ℕ → WaitEvent ι) (k : ℕ) :
    let s := states step (create maxThreads n minThreads) es k
    s.pool.pool.shutdown = false → s.pool.halted ∨ s.Ready := by
  induction k with
  | zero => exact fun _ => .inr (ready_create hn hmin)
  | succ k ih =>
    intro s hflag
    have hstep : s = (states step (create maxThreads n minThreads) es k).step (es k) := rfl
    generalize states step (create maxThreads n minThreads) es k = s₀ at ih hstep
    have hflag₀ : s₀.pool.pool.shutdown = false := by
      by_contra hset
      have hset' := eq_true_of_ne_false hset
      have hkept : s.pool.pool.shutdown = true := by
        rw [hstep]
        cases es k with
        | spurious u => exact hset'
        | pool e choice =>
          simp only [WaitState.step]
          split_ifs
          · exact hset'
          · exact shutdown_step hset' e
      rw [hkept] at hflag
      cases hflag
    rw [hstep]
    rcases ih hflag₀ with hgone | hready
    · exact .inl (halted_step hgone _)
    · exact or_iff_not_imp_left.mpr fun hlive => hready.step (.inl hflag₀) _ hlive

theorem states_accepted {es : ℕ → WaitEvent ι} {k m : ℕ} (hkm : k ≤ m) :
    (states step s es k).pool.accepted <+: (states step s es m).pool.accepted := by
  refine states_rel (R := fun s s' : WaitState ι => s.pool.accepted <+: s'.pool.accepted)
    (fun _ => List.prefix_rfl) (fun _ _ _ => List.IsPrefix.trans) (fun s e => ?_) hkm
  cases e with
  | spurious u => exact List.prefix_rfl
  | pool e choice =>
    simp only [WaitState.step]
    split_ifs
    · exact List.prefix_rfl
    · exact accepted_step _ e

/--
A job accepted before the shutdown is dequeued, unless the pool crashes or is
released first, on every run that gives each worker a step again and again.
-/
theorem job_dequeued {maxThreads n : ℕ} {minThreads : ℤ} (hn : 0 < n) (hmin : 0 < minThreads)
    {es : ℕ → WaitEvent ι}
    (hfair : ∀ k t, t < (states step (create maxThreads n minThreads) es k).pool.created →
      ∃ m, k ≤ m ∧ ∃ choice, es m = .pool (.worker t) choice)
    {k i : ℕ} {conn : ConnPtr}
    (hflag : (states step (create maxThreads n minThreads) es k).pool.pool.shutdown = false)
    (hjob : (states step (create maxThreads n minThreads) es k).pool.accepted[i]? = some conn) :
    ∃ m, k ≤ m ∧
      ((states step (create maxThreads n minThreads) es m).pool.dequeued[i]? = some conn ∨
        (states step (create maxThreads n minThreads) es m).pool.halted) := by
  -- a job that has left the queue is the one that was accepted
  have htaken : ∀ m, k ≤ m → (states step (create maxThreads n minThreads) es m).Taken i →
      (states step (create maxThreads n minThreads) es m).pool.dequeued[i]? = some conn ∨
        (states step (create maxThreads n minThreads) es m).pool.halted := by
    rintro m hkm (hlen | hgone)
    · obtain ⟨⟨ps, howned⟩, -⟩ :=
        states_refines (s := create maxThreads n minThreads) (fun p e => counted_step p e)
          counted_create es m
      have hprefix : (states step (create maxThreads n minThreads) es m).pool.dequeued <+:
          (states step (create maxThreads n minThreads) es m).pool.accepted := ⟨_, howned.order⟩
      have hlt := (List.getElem?_eq_some_iff.mp hjob).1
      refine .inl ?_
      rw [List.getElem?_eq_getElem hlen, ← List.prefix_iff_getElem?.mp hprefix i hlen,
        List.prefix_iff_getElem?.mp (states_accepted hkm) i hlt, ← List.getElem?_eq_getElem hlt,
        hjob]
    · exact .inr hgone
  rcases states_ready hn hmin es k hflag with hgone | hready
  · exact ⟨k, Nat.le_refl k, .inr hgone⟩
  · by_cases hdone : (states step (create maxThreads n minThreads) es k).Taken i
    · exact ⟨k, Nat.le_refl k, htaken k (Nat.le_refl k) hdone⟩
    · obtain ⟨hwaits, hlive⟩ := not_or.mp hdone
      have hpending : Pending i (states step (create maxThreads n minThreads) es k) :=
        ⟨hready, hlive, (List.getElem?_eq_some_iff.mp hjob).1, not_lt.mp hwaits⟩
      have hfair' : Fair step (fun e t => ∃ choice, e = .pool (.worker t) choice) Awake
          (create maxThreads n minThreads) es := fun m t ht => hfair m t ht.1.1
      obtain ⟨m, hkm, hm⟩ := hfair'.leadsTo (distance i) (fun s hs => hs.ready.attended hs.queued)
        (fun s e t hs ht => hs.step ht e) hpending
      exact ⟨m, hkm, htaken m hkm hm⟩

/-- One worker, whose turns come up in a round of all threads, takes the job submitted first. -/
theorem job_dequeued_first :
    let es : ℕ → WaitEvent Unit := fun m =>
      if m = 0 then .pool (.submit () 7 (some 0)) 0
      else if m = 1 then .pool (.submitLocked () []) 0
      else .pool (.worker m.unpair.1) 0
    ∃ m, 2 ≤ m ∧ ((states step (create 1 1 1) es m).pool.dequeued[0]? = some 7 ∨
      (states step (create 1 1 1) es m).pool.halted) := by
  intro es
  refine job_dequeued (by decide) (by decide) (fun k t _ => ?_) rfl rfl
  refine ⟨Nat.pair t (k + 2), (Nat.le_add_right k 2).trans (Nat.right_le_pair t _), 0, ?_⟩
  have hlarge : 2 ≤ Nat.pair t (k + 2) := (Nat.le_add_left 2 k).trans (Nat.right_le_pair t _)
  simp only [es]
  rw [if_neg (by omega), if_neg (by omega), Nat.unpair_pair]

end WaitState

end ChatServer
