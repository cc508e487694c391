import Mathlib.Data.Prod.Lex
import ChatServer.Pool.Signals

/-! # No job is stranded

A job in the queue always has a worker that is not blocked, and on a fair run
some worker takes it: no signal goes to a worker that exits instead of taking
the job, and no marked exit leaves a job without a worker.
-/

namespace ChatServer

open Library PoolState

variable {ι : Type*}

namespace WaitState

variable {s : WaitState ι} {t : ThreadId} {e : WaitEvent ι}

/-- A worker that has not returned and is not blocked. -/
def Awake (s : WaitState ι) (t : ThreadId) : Prop := s.pool.Live t ∧ t ∉ s.blocked

/-- What a run keeps while it can still take jobs. -/
structure Ready (s : WaitState ι) : Prop where
  counted : s.pool.Counted
  waiting : ∀ t ∈ s.blocked, s.pool.workers t = .waiting ∧ t < s.pool.created
  nodup : s.blocked.Nodup
  unmarked : s.blocked ≠ [] → s.pool.pool.markedExits = 0
  staffed : s.pool.Staffed
  minimum : 0 < s.pool.pool.minThreads
  threads : 0 < s.pool.pool.threadCount
  attended : s.pool.pool.queueSize ≠ 0 → ∃ t, s.Awake t

/-- The queue holds a job, or may still get one. -/
def Open (s : WaitState ι) : Prop := s.pool.pool.shutdown = false ∨ s.pool.pool.queueSize ≠ 0

theorem ready_create {maxThreads n : ℕ} {minThreads : ℤ} (hn : 0 < n) (hmin : 0 < minThreads) :
    (create maxThreads n minThreads : WaitState ι).Ready where
  counted := counted_create
  waiting := by simp [create]
  nodup := List.nodup_nil
  unmarked h := absurd rfl h
  staffed := by simp [Staffed, living, create, PoolState.create]
  minimum := hmin
  threads := by simpa [create, PoolState.create] using hn
  attended h := absurd rfl h

variable [DecidableEq ι]

theorem threads_step {p : PoolState ι} (hmin : 0 < p.pool.minThreads)
    (hpos : 0 < p.pool.threadCount) (e : PoolEvent ι) :
    0 < (p.step e).pool.minThreads ∧ 0 < (p.step e).pool.threadCount := by
  obtain ⟨hcounts, -, hlimit⟩ := step_counts p e
  refine ⟨hlimit ▸ hmin, ?_⟩
  cases hcounts with
  | keep threads marks => rwa [threads]
  | leave may threads marks =>
    have habove := may.2
    omega
  | grow threads room marks => omega
  | mark he above threads more excess => rwa [threads]

end WaitState

namespace PoolState

variable {p : PoolState ι} {t : ThreadId}

theorem dequeue_worker (ht : p.workers t ≠ .exited) : (p.dequeue t).workers t ≠ .exited := by
  unfold dequeue
  split
  · exact ht
  · split
    · exact ht
    · simp

theorem wake_exit (k : ℤ) (ht : p.workers t ≠ .exited)
    (hexit : ((p.addIdle k).wake t).workers t = .exited) :
    ((p.addIdle k).wake t).pool.threadCount = p.pool.threadCount - 1 ∨
      (p.pool.shutdown = true ∧ p.pool.queueSize = 0) := by
  unfold wake at hexit ⊢
  cases hwoken : (p.addIdle k).pool.woken with
  | wait => simp [hwoken, setWorker] at hexit
  | exitShutdown => exact .inr (ThreadPool.woken_exitShutdown hwoken)
  | exitShrink => exact .inl rfl
  | dequeue =>
    simp only [hwoken] at hexit
    exact absurd hexit (dequeue_worker ht)

theorem workerStep_exit (ht : p.workers t ≠ .exited)
    (hexit : (p.workerStep t).workers t = .exited) :
    (p.workerStep t).pool.threadCount = p.pool.threadCount - 1 ∨
      (p.pool.shutdown = true ∧ p.pool.queueSize = 0) := by
  unfold workerStep at hexit ⊢
  cases hphase : p.workers t with
  | ready =>
    simp only [hphase] at hexit ⊢
    exact wake_exit 1 ht hexit
  | waiting =>
    simp only [hphase] at hexit ⊢
    have h := wake_exit 0 ht (t := t)
    rw [addIdle_zero] at h
    exact h hexit
  | working job =>
    simp only [hphase, setWorker, Function.update_self] at hexit
    split_ifs at hexit
  | leaving =>
    simp only [hphase] at hexit ⊢
    split_ifs at hexit ⊢ with hmay
    · exact .inl rfl
    · simp [setWorker] at hexit
  | exited => exact absurd hphase ht

theorem staffed_worker (h : p.Staffed) (hp : ¬ p.halted) (ht : t < p.created)
    (hopen : p.pool.shutdown = false ∨ p.pool.queueSize ≠ 0) : (p.workerStep t).Staffed := by
  have hmoved := moved_worker hp ht
  have hfixed := hmoved.fixed
  simp only [PoolState.fixed, Prod.mk.injEq] at hfixed
  have hcreated := hfixed.2.2.1
  unfold Staffed at h ⊢
  have hothers : ∀ {u}, p.Live u → u ≠ t → (p.workerStep t).Live u := fun hu hne =>
    ⟨hcreated ▸ hu.1, by rw [hmoved.others _ hne]; exact hu.2⟩
  by_cases hgone : p.workers t ≠ .exited ∧ (p.workerStep t).workers t = .exited
  · have hcount := (workerStep_exit hgone.1 hgone.2).resolve_right fun hshut =>
      hopen.elim (fun h => by simp [h] at hshut) fun hq => hq hshut.2
    have hsub : p.living.erase t ⊆ (p.workerStep t).living := by
      intro u hu
      obtain ⟨hne, hlive⟩ := Finset.mem_erase.mp hu
      exact mem_living.mpr (hothers (mem_living.mp hlive) hne)
    have hcard := Finset.card_le_card hsub
    rw [Finset.card_erase_of_mem (mem_living.mpr ⟨ht, hgone.1⟩)] at hcard
    omega
  · have hsub : p.living ⊆ (p.workerStep t).living := by
      intro u hu
      have hlive := mem_living.mp hu
      rcases eq_or_ne u t with rfl | hne
      · exact mem_living.mpr ⟨hcreated ▸ ht, fun hexit => hgone ⟨hlive.2, hexit⟩⟩
      · exact mem_living.mpr (hothers hlive hne)
    have hcard := Finset.card_le_card hsub
    rcases hmoved.count with hcount | ⟨-, -, hcount⟩ <;> omega

theorem wake_waits (k : ℤ) (hp : ((p.addIdle k).wake t).crashed = false)
    (hw : ((p.addIdle k).wake t).workers t = .waiting) :
    p.pool.markedExits = 0 ∧ p.pool.queueSize = 0 ∧ ((p.addIdle k).wake t).pool =
      (p.addIdle k).pool := by
  cases hwoken : (p.addIdle k).pool.woken with
  | wait =>
    unfold ThreadPool.woken at hwoken
    split_ifs at hwoken with hwait
    exact ⟨hwait.2.2, hwait.1, by simp [wake, ThreadPool.woken, hwait, setWorker]⟩
  | exitShutdown => simp [wake, hwoken, setWorker] at hw
  | exitShrink => simp [wake, hwoken, takeExit, setWorker] at hw
  | dequeue =>
    simp only [wake, hwoken, dequeue] at hp hw
    split at hp
    · cases hp
    · rename_i job hhead
      split at hp
      · cases hp
      · rename_i node hjob
        simp [hhead, hjob] at hw

theorem worker_waits (hp : (p.workerStep t).crashed = false)
    (hw : (p.workerStep t).workers t = .waiting) :
    p.pool.markedExits = 0 ∧ p.pool.queueSize = 0 ∧
      (p.workerStep t).pool.markedExits = 0 ∧ (p.workerStep t).pool.queueSize = 0 := by
  unfold workerStep at hp hw ⊢
  cases hphase : p.workers t with
  | ready =>
    simp only [hphase] at hp hw ⊢
    obtain ⟨hmarks, hq, hpool⟩ := wake_waits 1 hp hw
    rw [hpool]
    exact ⟨hmarks, hq, hmarks, hq⟩
  | waiting =>
    simp only [hphase] at hp hw ⊢
    have h := wake_waits 0 (p := p) (t := t)
    rw [addIdle_zero] at h
    obtain ⟨hmarks, hq, hpool⟩ := h hp hw
    rw [hpool]
    exact ⟨hmarks, hq, hmarks, hq⟩
  | working job =>
    simp only [hphase, setWorker, Function.update_self] at hw
    split_ifs at hw
  | leaving =>
    simp only [hphase] at hw
    split_ifs at hw <;> simp [takeExit, setWorker] at hw
  | exited => simp [hphase] at hw

variable [DecidableEq ι]

theorem step_worker (hp : ¬ p.halted) (ht : t < p.created) :
    p.step (.worker t) = p.workerStep t := by
  rw [step, if_neg hp, handle, if_pos ht]

theorem step_destroy (hp : ¬ p.halted) : p.step .destroy = p.destroyStep := by
  rw [step, if_neg hp, handle]

theorem step_exited (hp : ¬ p.halted) (ht : t < p.created) (hexited : p.workers t = .exited) :
    p.step (.worker t) = p := by
  rw [step_worker hp ht, workerStep, hexited]

theorem staffed_step (h : p.Staffed) (hopen : p.pool.shutdown = false ∨ p.pool.queueSize ≠ 0)
    (e : PoolEvent ι) : (p.step e).Staffed := by
  by_cases he : ∃ t, e = .worker t
  · obtain ⟨t, rfl⟩ := he
    unfold step
    split_ifs with hp
    · exact h
    · rw [handle]
      split_ifs with ht
      · exact staffed_worker h hp ht hopen
      · exact h
  · exact (step_quiet p fun t ht => he ⟨t, ht⟩).staffed h

theorem worker_step_of_ne {e : PoolEvent ι} (he : e ≠ .worker t) (ht : t < p.created) :
    (p.step e).workers t = p.workers t := by
  by_cases hw : ∃ u, e = .worker u
  · obtain ⟨u, rfl⟩ := hw
    unfold step
    split_ifs with hp
    · rfl
    · rw [handle]
      split_ifs with hu
      · exact (moved_worker hp hu).others t fun htu => he (htu ▸ rfl)
      · rfl
  · exact (step_quiet p fun u hu => hw ⟨u, hu⟩).workers t ht

omit [DecidableEq ι] in
theorem workerStep_accepted (p : PoolState ι) (t : ThreadId) :
    (p.workerStep t).accepted = p.accepted := by
  have hdequeue (q : PoolState ι) : (q.dequeue t).accepted = q.accepted := by
    unfold dequeue
    split
    · rfl
    · split <;> rfl
  have hwake (q : PoolState ι) : (q.wake t).accepted = q.accepted := by
    unfold wake
    split
    · rfl
    · rfl
    · rfl
    · exact hdequeue _
  unfold workerStep
  split
  · exact hwake _
  · exact hwake _
  · rfl
  · split_ifs <;> rfl
  · rfl

theorem accepted_step (p : PoolState ι) (e : PoolEvent ι) : p.accepted <+: (p.step e).accepted := by
  by_cases hw : ∃ u, e = .worker u
  · obtain ⟨u, rfl⟩ := hw
    unfold step
    split_ifs with hp
    · exact List.prefix_rfl
    · rw [handle]
      split_ifs
      · rw [workerStep_accepted]
      · exact List.prefix_rfl
  · exact (step_quiet p fun u hu => hw ⟨u, hu⟩).accepted

theorem shutdown_step (h : p.pool.shutdown = true) (e : PoolEvent ι) :
    (p.step e).pool.shutdown = true := by
  by_cases hw : ∃ u, e = .worker u
  · obtain ⟨u, rfl⟩ := hw
    unfold step
    split_ifs with hp
    · exact h
    · rw [handle]
      split_ifs with hu
      · have hfixed := (moved_worker hp hu).fixed
        simp only [PoolState.fixed, Prod.mk.injEq] at hfixed
        exact hfixed.2.1.trans h
      · exact h
  · exact (step_quiet p fun u hu => hw ⟨u, hu⟩).shutdown h

theorem created_step (p : PoolState ι) (e : PoolEvent ι) : p.created ≤ (p.step e).created := by
  by_cases hw : ∃ u, e = .worker u
  · obtain ⟨u, rfl⟩ := hw
    unfold step
    split_ifs with hp
    · exact Nat.le_refl _
    · rw [handle]
      split_ifs with hu
      · have hfixed := (moved_worker hp hu).fixed
        simp only [PoolState.fixed, Prod.mk.injEq] at hfixed
        exact hfixed.2.2.1.ge
      · exact Nat.le_refl _
  · exact (step_quiet p fun u hu => hw ⟨u, hu⟩).created

omit [DecidableEq ι] in
theorem exists_live (h : p.Staffed) (hpos : 0 < p.pool.threadCount) : ∃ t, p.Live t := by
  unfold Staffed at h
  obtain ⟨t, ht⟩ := Finset.card_pos.mp (by omega : 0 < p.living.card)
  exact ⟨t, mem_living.mp ht⟩

theorem queueSize_step {e : PoolEvent ι} (hw : ∀ t, e ≠ .worker t)
    (hs : ∀ i oks, e ≠ .submitLocked i oks) : (p.step e).pool.queueSize = p.pool.queueSize := by
  unfold step
  split_ifs
  · rfl
  · cases e with
    | submit i conn mem =>
      rcases submit_cases p i conn mem with h | ⟨job, -, -, h⟩ <;> rw [handle, h]
    | submitLocked i oks => exact absurd rfl (hs i oks)
    | maybeShrink =>
      simp only [handle, ThreadPool.maybeShrink]
      split_ifs <;> rfl
    | destroy =>
      obtain ⟨shutdown, destroyer, h⟩ := destroyStep_eq p
      rw [handle, h]
    | worker t => exact absurd rfl (hw t)

end PoolState

namespace WaitState

variable [DecidableEq ι] {s : WaitState ι} {t : ThreadId}

theorem blockedAfter_exited {k : ℕ} (h : (s.pool.step (.worker t)).workers t = .exited) :
    s.blockedAfter k (.worker t) = s.blocked := by
  rw [blockedAfter, if_neg (by simp [h])]

theorem blockedAfter_sublist (k : ℕ) {e : PoolEvent ι} (hw : ∀ t, e ≠ .worker t) :
    (s.blockedAfter k e).Sublist s.blocked := by
  cases e with
  | submit i conn mem => exact List.Sublist.refl _
  | submitLocked i oks =>
    simp only [blockedAfter]
    split_ifs
    · exact List.Sublist.refl _
    · exact List.eraseIdx_sublist _ _
  | maybeShrink =>
    simp only [blockedAfter]
    split_ifs
    · exact List.nil_sublist _
    · exact List.Sublist.refl _
  | destroy =>
    simp only [blockedAfter]
    split_ifs
    · exact List.nil_sublist _
    · exact List.Sublist.refl _
  | worker t => exact absurd rfl (hw t)

theorem Ready.unmarked_step (h : s.Ready) (k : ℕ) {e : PoolEvent ι}
    (hsub : (s.blockedAfter k e).Sublist s.blocked) (hb : s.blockedAfter k e ≠ []) :
    (s.pool.step e).pool.markedExits = 0 := by
  have hzero := h.unmarked fun hnil => hb (List.sublist_nil.mp (hnil ▸ hsub))
  cases (step_counts s.pool e).1 with
  | keep threads marks => rwa [marks]
  | leave may threads marks =>
    have hmarked := may.1
    omega
  | grow threads room marks => rwa [marks]
  | mark he above threads more excess =>
    subst he
    refine absurd ?_ hb
    by_cases hp : s.pool.halted
    · rw [PoolState.step, if_pos hp] at more
      omega
    · rw [PoolState.step, if_neg hp] at more
      exact if_pos more

/-- The signal of a submit leaves some worker awake. -/
theorem Ready.signalled (h : s.Ready) (k : ℕ) {i : ι} (oks : List Bool)
    (hi : s.pool.callers i ≠ none) :
    ∃ t, s.pool.Live t ∧ t ∉ s.blockedAfter k (.submitLocked i oks) := by
  rw [blockedAfter, if_neg hi]
  by_cases hb : s.blocked = []
  · obtain ⟨t, ht⟩ := exists_live h.staffed h.threads
    exact ⟨t, ht, by simp [hb]⟩
  · have hlen : k % s.blocked.length < s.blocked.length :=
      Nat.mod_lt _ (List.length_pos_iff.mpr hb)
    obtain ⟨hphase, ht⟩ := h.waiting _ (List.getElem_mem hlen)
    refine ⟨_, ⟨ht, by simp [hphase]⟩, fun hmem => ?_⟩
    obtain ⟨j, hj, hne, heq⟩ := List.mem_eraseIdx_iff_getElem.mp hmem
    exact hne ((h.nodup.getElem_inj_iff).mp heq)

theorem Ready.quiet_step (h : s.Ready) (hopen : s.Open) (k : ℕ) {e : PoolEvent ι}
    (hw : ∀ t, e ≠ .worker t) : Ready ⟨s.pool.step e, s.blockedAfter k e⟩ := by
  have hquiet := step_quiet s.pool hw
  have hsub := blockedAfter_sublist k hw (s := s)
  obtain ⟨hmin, hpos⟩ := threads_step h.minimum h.threads e
  refine ⟨counted_step _ e h.counted, fun t ht => ?_, hsub.nodup h.nodup, h.unmarked_step k hsub,
    staffed_step h.staffed hopen e, hmin, hpos, fun hq => ?_⟩
  · obtain ⟨hphase, hlt⟩ := h.waiting t (hsub.subset ht)
    exact ⟨(hquiet.workers t hlt).trans hphase, hlt.trans_le hquiet.created⟩
  · have hkeep : (∃ t, s.Awake t) → ∃ t, Awake ⟨s.pool.step e, s.blockedAfter k e⟩ t := by
      rintro ⟨t, hlive, hnot⟩
      exact ⟨t, hquiet.live hlive, fun ht => hnot (hsub.subset ht)⟩
    by_cases hs : ∃ i oks, e = .submitLocked i oks
    · obtain ⟨i, oks, rfl⟩ := hs
      by_cases hi : s.pool.callers i = none
      · refine hkeep (h.attended ?_)
        rwa [PoolState.step, PoolState.handle, submitLocked, hi, ite_self] at hq
      · obtain ⟨t, hlive, hnot⟩ := h.signalled k oks hi
        exact ⟨t, hquiet.live hlive, hnot⟩
    · rw [queueSize_step hw fun i oks he => hs ⟨i, oks, he⟩] at hq
      exact hkeep (h.attended hq)

/-- With a worker blocked no exit is marked, so that a worker found gone had left before. -/
theorem Ready.step_exited (h : s.Ready) (hopen : s.Open) (ht : t < s.pool.created)
    (hp : ¬ s.pool.halted) (hb : s.blocked ≠ [])
    (hgone : (s.pool.step (.worker t)).workers t = .exited) :
    s.pool.step (.worker t) = s.pool := by
  have hstep := step_worker hp ht
  have hbefore : s.pool.workers t = .exited := by
    by_contra hlive
    rw [hstep] at hgone
    rcases workerStep_exit hlive hgone with hcount | ⟨hshut, hempty⟩
    · have hzero := h.unmarked hb
      cases (step_counts s.pool (.worker t)).1 with
      | keep threads marks => rw [hstep] at threads; omega
      | leave may threads marks =>
        have hmarked := may.1
        omega
      | grow threads room marks => rw [hstep] at threads; omega
      | mark he => cases he
    · exact hopen.elim (fun h => by simp [h] at hshut) fun hq => hq hempty
  exact PoolState.step_exited hp ht hbefore

theorem Ready.worker_step (h : s.Ready) (hopen : s.Open) (k : ℕ) (ht : t < s.pool.created)
    (hnot : t ∉ s.blocked) (hp : ¬ s.pool.halted)
    (hcrash : (s.pool.step (.worker t)).crashed = false) :
    Ready ⟨s.pool.step (.worker t), s.blockedAfter k (.worker t)⟩ := by
  have hstep := step_worker hp ht
  have hmoved := moved_worker hp ht
  obtain ⟨hmin, hpos⟩ := threads_step h.minimum h.threads (.worker t)
  have hstaffed := staffed_step h.staffed hopen (.worker t)
  have hcounted := counted_step _ (.worker t) h.counted
  have hothers : ∀ u ∈ s.blocked, (s.pool.step (.worker t)).workers u = .waiting ∧
      u < (s.pool.step (.worker t)).created := by
    intro u hu
    obtain ⟨hphase, hlt⟩ := h.waiting u hu
    have hne : PoolEvent.worker t ≠ (PoolEvent.worker u : PoolEvent ι) := by
      rintro ⟨⟩
      exact hnot hu
    exact ⟨(worker_step_of_ne hne hlt).trans hphase, hlt.trans_le (created_step _ _)⟩
  by_cases hw : (s.pool.step (.worker t)).workers t = .waiting
  · have hblocked : s.blockedAfter k (.worker t) = s.blocked ++ [t] := if_pos hw
    rw [hstep] at hw hcrash
    obtain ⟨-, -, hmarks, hq⟩ := worker_waits hcrash hw
    rw [hblocked]
    refine ⟨hcounted, fun u hu => ?_, ?_, fun _ => ?_, hstaffed, hmin, hpos, fun hq' => ?_⟩
    · rcases List.mem_append.mp hu with hu | hu
      · exact hothers u hu
      · obtain rfl := List.mem_singleton.mp hu
        exact ⟨hstep ▸ hw, ht.trans_le (created_step _ _)⟩
    · exact List.nodup_append.mpr ⟨h.nodup, List.nodup_singleton t, by
        rintro u hu v hv rfl
        exact hnot (List.mem_singleton.mp hv ▸ hu)⟩
    · rw [hstep]
      exact hmarks
    · rw [hstep] at hq'
      exact absurd hq hq'
  · have hblocked : s.blockedAfter k (.worker t) = s.blocked := if_neg hw
    have hmarks := h.unmarked_step k (e := .worker t) (hblocked ▸ List.Sublist.refl _)
    rw [hblocked] at hmarks ⊢
    refine ⟨hcounted, hothers, h.nodup, hmarks, hstaffed, hmin, hpos, fun hq => ?_⟩
    by_cases hgone : (s.pool.step (.worker t)).workers t = .exited
    · by_cases hb : s.blocked = []
      · obtain ⟨u, hu⟩ := exists_live hstaffed hpos
        exact ⟨u, hu, by simp [hb]⟩
      · have hsame : s.pool.step (.worker t) = s.pool := h.step_exited hopen ht hp hb hgone
        rw [hsame] at hq ⊢
        exact h.attended hq
    · exact ⟨t, ⟨ht.trans_le (created_step _ _), hgone⟩, hnot⟩

theorem Ready.step (h : s.Ready) (hopen : s.Open) (e : WaitEvent ι)
    (hlive : ¬ (s.step e).pool.halted) : (s.step e).Ready := by
  cases e with
  | spurious t =>
    refine ⟨h.counted, fun u hu => h.waiting u (List.mem_of_mem_erase hu), h.nodup.erase t,
      fun hb => h.unmarked ?_, h.staffed, h.minimum, h.threads, fun hq => ?_⟩
    · rintro hnil
      exact hb (by simp [WaitState.step, hnil])
    · obtain ⟨u, hu, hnot⟩ := h.attended hq
      exact ⟨u, hu, fun hmem => hnot (List.mem_of_mem_erase hmem)⟩
  | pool e k =>
    simp only [WaitState.step] at hlive ⊢
    split_ifs at hlive ⊢ with hstuck
    · exact h
    · by_cases hw : ∃ t, e = .worker t
      · obtain ⟨t, rfl⟩ := hw
        obtain ⟨hp, hnot⟩ := not_or.mp hstuck
        obtain ⟨hnot, ht⟩ := not_or.mp hnot
        exact h.worker_step hopen k (not_le.mp ht) hnot hp (by simpa using (not_or.mp hlive).1)
      · exact h.quiet_step hopen k fun t ht => hw ⟨t, ht⟩

end WaitState

end ChatServer
