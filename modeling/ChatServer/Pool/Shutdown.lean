import Mathlib.Algebra.BigOperators.Group.Finset.Basic
import Mathlib.Algebra.Order.Ring.Int
import Mathlib.Data.Nat.Pairing
import ChatServer.Pool.Progress

/-! # `threadpool_destroy` returns

Once the shutdown flag is set no worker waits, no job is accepted and no
dequeue finds the queue empty. Every step of a worker that has not returned,
and every join of one that has, leaves less to do.
-/

namespace ChatServer

open Library

variable {ι : Type*}

/-- The steps a worker has left when the pool is shut down and no job is queued. -/
def WorkerPhase.work : WorkerPhase → ℕ
  | .exited => 0
  | .ready | .waiting => 1
  | .leaving => 2
  | .working _ => 3

namespace PoolState

variable {s s' : PoolState ι} {t : ThreadId} {ps : List (JobPtr × ConnPtr)}

/-! ## The handles -/

/-- The array holds a handle at every index that is joined. -/
structure Handles (s : PoolState ι) : Prop where
  created : ∀ {j t}, s.pool.threads j = some t → t < s.created
  filled : s.BeforeSnapshot → ∀ j, 0 ≤ j → j < s.pool.threadCount → s.pool.threads j ≠ none
  joined : ∀ {n i}, s.destroyer = .joining n i →
    0 ≤ i ∧ ∀ j, 0 ≤ j → j < n → s.pool.threads j ≠ none

theorem handles_create {maxThreads n : ℕ} {minThreads : ℤ} :
    (create maxThreads n minThreads : PoolState ι).Handles where
  created {j t} h := by
    simp only [create] at h ⊢
    split_ifs at h with hj
    obtain rfl := Option.some.inj h
    exact (Int.toNat_lt hj.1).mpr hj.2
  filled _ j hj hn := by
    simp only [create] at hn ⊢
    rw [if_pos ⟨hj, hn⟩]
    exact Option.some_ne_none _
  joined h := by cases h

theorem Handles.congr (h : s.Handles) (hthreads : s'.pool.threads = s.pool.threads)
    (hcreated : s'.created = s.created) (hcount : s'.pool.threadCount ≤ s.pool.threadCount)
    (hdestroyer : s'.destroyer = s.destroyer) : s'.Handles where
  created {j t} hj := by
    rw [hthreads] at hj
    rw [hcreated]
    exact h.created hj
  filled hb j hj hlt := by
    rw [hthreads]
    exact h.filled (by rwa [BeforeSnapshot, ← hdestroyer]) j hj (hlt.trans_le hcount)
  joined {n i} hd := by
    rw [hdestroyer] at hd
    rw [hthreads]
    exact h.joined hd

theorem Handles.createWorker (h : s.Handles) : s.createWorker.Handles where
  created {j t} hj := by
    simp only [PoolState.createWorker] at hj ⊢
    by_cases hjc : j = s.pool.threadCount
    · subst hjc
      rw [Function.update_self] at hj
      obtain rfl := Option.some.inj hj
      exact Nat.lt_succ_self _
    · rw [Function.update_of_ne hjc] at hj
      exact Nat.lt_succ_of_lt (h.created hj)
  filled hb j hj hlt := by
    simp only [PoolState.createWorker] at hlt ⊢
    by_cases hjc : j = s.pool.threadCount
    · subst hjc
      rw [Function.update_self]
      exact Option.some_ne_none _
    · rw [Function.update_of_ne hjc]
      exact h.filled hb j hj (by omega)
  joined {n i} hd := by
    refine ⟨(h.joined hd).1, fun j hj hn => ?_⟩
    simp only [PoolState.createWorker]
    by_cases hjc : j = s.pool.threadCount
    · subst hjc
      rw [Function.update_self]
      exact Option.some_ne_none _
    · rw [Function.update_of_ne hjc]
      exact (h.joined hd).2 j hj hn

theorem Handles.scaleUp (h : s.Handles) (oks : List Bool) : (s.scaleUp oks).Handles := by
  have hcreate : ∀ (k : ℕ) {s : PoolState ι} (oks : List Bool), s.Handles →
      (s.createWorkers k oks).Handles := by
    intro k
    induction k with
    | zero => exact fun _ h => h
    | succ k ih =>
      intro s oks h
      unfold createWorkers
      split_ifs
      · exact h
      · exact ih _ h.createWorker
      · exact ih _ h
  unfold PoolState.scaleUp
  split_ifs
  · exact hcreate _ oks h
  · exact h

theorem Handles.destroyStep (h : s.Handles) : s.destroyStep.Handles := by
  unfold PoolState.destroyStep
  split
  · rename_i hd
    exact ⟨h.created, fun _ => h.filled (.inl hd), nofun⟩
  · rename_i hd
    refine ⟨h.created, fun hb => ?_, fun hj => ?_⟩
    · rcases hb with hb | hb <;> cases hb
    · cases hj
      exact ⟨Int.le_refl 0, h.filled (.inr hd)⟩
  · rename_i n i hd
    obtain ⟨hpos, hfilled⟩ := h.joined hd
    split_ifs
    · split
      · exact h
      · split_ifs
        · refine ⟨h.created, fun hb => ?_, fun hj => ?_⟩
          · rcases hb with hb | hb <;> cases hb
          · cases hj
            exact ⟨by omega, hfilled⟩
        · exact h
    · refine ⟨h.created, fun hb => ?_, nofun⟩
      rcases hb with hb | hb <;> cases hb
  · exact h

theorem handles_step [DecidableEq ι] (h : s.Handles) (e : PoolEvent ι) : (s.step e).Handles := by
  unfold step
  split_ifs with hs
  · exact h
  · cases e with
    | submit i conn mem =>
      rcases submit_cases s i conn mem with hsame | ⟨job, -, -, hsubmit⟩ <;> rw [handle]
      · rwa [hsame]
      · rw [hsubmit]
        exact h.congr rfl rfl (Int.le_refl _) rfl
    | submitLocked i oks =>
      rw [handle, submitLocked]
      split
      · exact h
      · rename_i job _
        have hq : (s.enqueue i job).Handles := h.congr rfl rfl (Int.le_refl _) rfl
        exact hq.scaleUp oks
    | maybeShrink =>
      have hcount : s.pool.maybeShrink.threads = s.pool.threads ∧
          s.pool.maybeShrink.threadCount = s.pool.threadCount := by
        simp only [ThreadPool.maybeShrink]
        split_ifs <;> exact ⟨rfl, rfl⟩
      exact h.congr hcount.1 rfl hcount.2.le rfl
    | destroy => exact h.destroyStep
    | worker t =>
      rw [handle]
      split_ifs with ht
      · have hmoved := moved_worker hs ht
        have hfixed := hmoved.fixed
        simp only [fixed, Prod.mk.injEq] at hfixed
        refine h.congr hfixed.1 hfixed.2.2.1 ?_ hfixed.2.2.2.2
        rcases hmoved.count with hcount | ⟨-, -, hcount⟩ <;> omega
      · exact h

theorem scaleUp_destroyer (s : PoolState ι) (oks : List Bool) :
    (s.scaleUp oks).destroyer = s.destroyer := by
  have hcreate : ∀ (k : ℕ) (s : PoolState ι) (oks : List Bool),
      (s.createWorkers k oks).destroyer = s.destroyer := by
    intro k
    induction k with
    | zero => exact fun _ _ => rfl
    | succ k ih =>
      intro s oks
      unfold createWorkers
      split_ifs
      · rfl
      · exact ih _ _
      · exact ih _ _
  unfold scaleUp
  split_ifs
  · exact hcreate _ s oks
  · rfl

theorem destroyer_step [DecidableEq ι] (s : PoolState ι) {e : PoolEvent ι} (he : e ≠ .destroy) :
    (s.step e).destroyer = s.destroyer := by
  unfold step
  split_ifs with hs
  · rfl
  · cases e with
    | submit i conn mem =>
      rcases submit_cases s i conn mem with h | ⟨job, -, -, h⟩ <;> rw [handle, h]
    | submitLocked i oks =>
      rw [handle, submitLocked]
      split
      · rfl
      · exact scaleUp_destroyer _ oks
    | maybeShrink => rfl
    | destroy => exact absurd rfl he
    | worker t =>
      rw [handle]
      split_ifs with ht
      · have hfixed := (moved_worker hs ht).fixed
        simp only [fixed, Prod.mk.injEq] at hfixed
        exact hfixed.2.2.2.2
      · rfl

/-! ## Workers after the shutdown -/

theorem drain_wake (h : Owned s ps) (k : ℤ) (hshut : s.pool.shutdown = true) :
    let s' := (s.addIdle k).wake t
    s'.crashed = s.crashed ∧
      ((s'.pool.queueSize = s.pool.queueSize ∧ s'.workers t = .exited) ∨
        (s'.pool.queueSize = s.pool.queueSize - 1 ∧ 0 < s.pool.queueSize ∧
          ∃ job, s'.workers t = .working job)) := by
  intro s'
  have hlinked := h.linked.chain
  have hsize := h.size
  cases ps with
  | nil =>
    have hempty : s.pool.queueSize = 0 := hsize
    have hstep : s' = ((s.addIdle k).addIdle (-1)).setWorker t .exited := by
      simp [s', wake, ThreadPool.woken, addIdle, hshut, hempty]
    rw [hstep]
    exact ⟨rfl, .inl ⟨rfl, Function.update_self _ _ _⟩⟩
  | cons p rest =>
    obtain ⟨job, conn⟩ := p
    obtain ⟨hhead, next, hnode, -⟩ := hlinked
    have hpos : 0 < s.pool.queueSize := by
      rw [hsize, List.length_cons]
      omega
    have hstep : s' = ((s.addIdle k).addIdle (-1)).dequeue t := by
      simp [s', wake, ThreadPool.woken, addIdle, hshut, hpos.ne']
    rw [hstep]
    refine ⟨?_, .inr ⟨?_, hpos, job, ?_⟩⟩ <;> simp [dequeue, addIdle, hhead, hnode]

/-- A worker of a pool that is shut down does not wait, and has less to do after its step. -/
theorem drain_worker (h : Owned s ps) (hshut : s.pool.shutdown = true)
    (hlive : s.workers t ≠ .exited) :
    let s' := s.workerStep t
    s'.crashed = s.crashed ∧ s'.workers t ≠ .waiting ∧
      ((s'.pool.queueSize = s.pool.queueSize ∧ (s'.workers t).work < (s.workers t).work) ∨
        (s'.pool.queueSize = s.pool.queueSize - 1 ∧ 0 < s.pool.queueSize ∧
          (s'.workers t).work = 3 ∧ (s.workers t).work = 1)) := by
  intro s'
  have hwake {k : ℤ} (hs' : s' = (s.addIdle k).wake t) (hwork : (s.workers t).work = 1) :
      s'.crashed = s.crashed ∧ s'.workers t ≠ .waiting ∧
        ((s'.pool.queueSize = s.pool.queueSize ∧ (s'.workers t).work < (s.workers t).work) ∨
          (s'.pool.queueSize = s.pool.queueSize - 1 ∧ 0 < s.pool.queueSize ∧
            (s'.workers t).work = 3 ∧ (s.workers t).work = 1)) := by
    obtain ⟨hcrash, hcases⟩ := drain_wake (t := t) h k hshut
    rw [← hs'] at hcrash hcases
    rcases hcases with ⟨hq, hphase⟩ | ⟨hq, hpos, job, hphase⟩
    · exact ⟨hcrash, by simp [hphase], .inl ⟨hq, by rw [hphase, hwork]; exact Nat.zero_lt_one⟩⟩
    · exact ⟨hcrash, by simp [hphase], .inr ⟨hq, hpos, by rw [hphase]; rfl, hwork⟩⟩
  cases hphase : s.workers t with
  | ready =>
    have hstep : s' = (s.addIdle 1).wake t := by simp only [s', workerStep, hphase]
    exact hphase ▸ hwake hstep (by rw [hphase]; rfl)
  | waiting =>
    have hstep : s' = (s.addIdle 0).wake t := by simp only [s', workerStep, hphase, addIdle_zero]
    exact hphase ▸ hwake hstep (by rw [hphase]; rfl)
  | working job =>
    simp only [s', workerStep, hphase, setWorker, Function.update_self]
    split_ifs <;> simp [WorkerPhase.work]
  | leaving =>
    simp only [s', workerStep, hphase]
    split_ifs <;> simp [takeExit, ThreadPool.leave, setWorker, WorkerPhase.work]
  | exited => exact absurd hphase hlive

/-! ## What is left to do -/

/-- The joins that `threadpool_destroy` has before it. -/
def joins (s : PoolState ι) : ℕ :=
  match s.destroyer with
  | .notCalled | .flagged => s.pool.threadCount.toNat + 2
  | .joining n i => (n - i).toNat + 1
  | .released => 0

/-- The steps that the workers have before them. -/
def workLeft (s : PoolState ι) : ℕ := ∑ t ∈ Finset.range s.created, (s.workers t).work

/-- The jobs, the steps of the workers, and the joins that are left. -/
def remaining (s : PoolState ι) : ℕ := 3 * s.pool.queueSize.toNat + s.workLeft + s.joins

theorem workLeft_moved (ht : t < s.created) (hcreated : s'.created = s.created)
    (hothers : ∀ u, u ≠ t → s'.workers u = s.workers u) :
    s'.workLeft + (s.workers t).work = s.workLeft + (s'.workers t).work := by
  have hmem : t ∈ Finset.range s.created := Finset.mem_range.mpr ht
  have hsum := Finset.sum_erase_add _ (fun u => (s.workers u).work) hmem
  have hsum' := Finset.sum_erase_add _ (fun u => (s'.workers u).work) hmem
  have hsame : ∑ u ∈ (Finset.range s.created).erase t, (s'.workers u).work =
      ∑ u ∈ (Finset.range s.created).erase t, (s.workers u).work :=
    Finset.sum_congr rfl fun u hu => by rw [hothers u (Finset.ne_of_mem_erase hu)]
  rw [workLeft, workLeft, hcreated, ← hsum, ← hsum', hsame, Nat.add_right_comm]

/-- The pool is being destroyed, and its submits have returned. -/
structure Draining (s : PoolState ι) : Prop where
  owned : ∃ ps, Owned s ps
  handles : s.Handles
  shutdown : s.pool.shutdown = true
  callers : ∀ i, s.callers i = none
  called : s.destroyer ≠ .notCalled
  running : ¬ s.halted

theorem remaining_worker (h : s.Draining) (ht : s.Live t) :
    (s.workerStep t).Draining ∧ (s.workerStep t).workers t ≠ .waiting ∧
      (s.workerStep t).remaining < s.remaining := by
  obtain ⟨ps, howned⟩ := h.owned
  obtain ⟨hcrash, hwait, hwork⟩ := drain_worker howned h.shutdown ht.2
  have hmoved := moved_worker h.running ht.1
  have hfixed := hmoved.fixed
  simp only [fixed, Prod.mk.injEq] at hfixed
  obtain ⟨hthreads, hshut, hcreated, hcallers, hdestroyer⟩ := hfixed
  have hcount : (s.workerStep t).pool.threadCount ≤ s.pool.threadCount := by
    rcases hmoved.count with hcount | ⟨-, -, hcount⟩ <;> omega
  refine ⟨⟨howned.workerStep, h.handles.congr hthreads hcreated hcount hdestroyer,
    hshut.trans h.shutdown, ?_, ?_, ?_⟩, hwait, ?_⟩
  · rw [hcallers]
    exact h.callers
  · rw [hdestroyer]
    exact h.called
  · rw [halted, hcrash, hdestroyer]
    exact h.running
  · have hleft := workLeft_moved ht.1 hcreated hmoved.others
    have hjoins : (s.workerStep t).joins ≤ s.joins := by
      simp only [joins, hdestroyer]
      split <;> omega
    rw [remaining, remaining]
    rcases hwork with ⟨hq, hless⟩ | ⟨hq, hpos, hafter, hbefore⟩ <;> omega

theorem destroyStep_called (hcalled : s.destroyer ≠ .notCalled) : ∃ destroyer,
    s.destroyStep = { s with destroyer } ∧ (destroyer = s.destroyer ∨ destroyer = .released ∨
      (destroyer ≠ .notCalled ∧ destroyer ≠ .released ∧
        ({ s with destroyer } : PoolState ι).joins < s.joins)) := by
  cases hd : s.destroyer with
  | notCalled => exact absurd hd hcalled
  | flagged =>
    refine ⟨.joining s.pool.threadCount 0, by simp only [destroyStep, hd], .inr (.inr ?_)⟩
    refine ⟨by simp, by simp, ?_⟩
    simp only [joins, hd]
    omega
  | joining n i =>
    have hself : s = { s with destroyer := .joining n i } := by rw [← hd]
    by_cases hlt : i < n
    · cases ht : s.pool.threads i with
      | none => exact ⟨_, by simpa only [destroyStep, hd, if_pos hlt, ht] using hself, .inl rfl⟩
      | some t =>
        by_cases hgone : s.workers t = .exited
        · refine ⟨.joining n (i + 1), by simp only [destroyStep, hd, if_pos hlt, ht, if_pos hgone],
            .inr (.inr ⟨by simp, by simp, ?_⟩)⟩
          simp only [joins, hd]
          omega
        · exact ⟨_, by simpa only [destroyStep, hd, if_pos hlt, ht, if_neg hgone] using hself,
            .inl rfl⟩
    · exact ⟨.released, by simp only [destroyStep, hd, if_neg hlt], .inr (.inl rfl)⟩
  | released =>
    have hself : s = { s with destroyer := .released } := by rw [← hd]
    exact ⟨_, by simpa only [destroyStep, hd] using hself, .inl rfl⟩

theorem remaining_destroy (h : s.Draining) :
    s.destroyStep = s ∨ s.destroyStep.destroyer = .released ∨
      (s.destroyStep.Draining ∧ s.destroyStep.remaining < s.remaining) := by
  have hhandles := h.handles.destroyStep
  obtain ⟨ps, howned⟩ := h.owned
  have howned' := howned.destroyStep
  obtain ⟨destroyer, heq, hcases⟩ := destroyStep_called h.called
  rw [heq] at hhandles howned' ⊢
  rcases hcases with hsame | hreleased | ⟨hcalled, hheld, hjoins⟩
  · exact .inl (by rw [hsame])
  · exact .inr (.inl hreleased)
  · refine .inr (.inr ⟨⟨⟨ps, howned'⟩, hhandles, h.shutdown, h.callers, hcalled, ?_⟩, ?_⟩)
    · exact fun hhalted => hhalted.elim (fun hcrash => h.running (.inl hcrash)) hheld
    · exact Nat.add_lt_add_left hjoins _

theorem destroy_moves (h : s.Draining) (hgone : ∀ t, ¬ s.Live t) : s.destroyStep ≠ s := by
  have hreleased : s.destroyer ≠ .released := fun hd => h.running (.inr hd)
  intro hsame
  have hd' := congrArg PoolState.destroyer hsame
  cases hd : s.destroyer with
  | notCalled => exact h.called hd
  | released => exact hreleased hd
  | flagged => simp [destroyStep, hd] at hd'
  | joining n i =>
    obtain ⟨hpos, hfilled⟩ := h.handles.joined hd
    by_cases hlt : i < n
    · obtain ⟨t, ht⟩ := Option.ne_none_iff_exists'.mp (hfilled i hpos hlt)
      have hexited : s.workers t = .exited := by
        by_contra hlive
        exact hgone t ⟨h.handles.created ht, hlive⟩
      simp [destroyStep, hd, hlt, ht, hexited] at hd'
    · simp [destroyStep, hd, hlt] at hd'

end PoolState

namespace WaitState

open PoolState

variable [DecidableEq ι] {s : WaitState ι} {e : WaitEvent ι}

/-! ## Fair runs -/

/-- A thread that has not finished: a worker, or the caller of `threadpool_destroy`. -/
def Helps (s : WaitState ι) : Option ThreadId → Prop
  | some t => s.pool.Live t
  | none => s.pool.destroyStep ≠ s.pool

def Turn (e : WaitEvent ι) : Option ThreadId → Prop
  | some t => ∃ choice, e = .pool (.worker t) choice
  | none => ∃ choice, e = .pool .destroy choice

omit [DecidableEq ι] in
theorem not_turn {p : Option ThreadId} (he : ∀ t k, e ≠ .pool (.worker t) k)
    (he' : ∀ k, e ≠ .pool .destroy k) : ¬ Turn e p := by
  cases p with
  | none => exact fun hturn => hturn.elim he'
  | some t => exact fun hturn => hturn.elim (he t)

/-- The pool is drained, with no worker blocked. -/
def Drains (s : WaitState ι) : Prop := s.pool.Draining ∧ s.blocked = []

omit [DecidableEq ι] in
theorem Drains.helper (h : s.Drains) : ∃ p, s.Helps p := by
  by_cases hlive : ∃ t, s.pool.Live t
  · obtain ⟨t, ht⟩ := hlive
    exact ⟨some t, ht⟩
  · exact ⟨none, destroy_moves h.1 fun t ht => hlive ⟨t, ht⟩⟩

/-- The event releases the pool, changes nothing, or leaves less to do. -/
def Lowers (s : WaitState ι) (e : WaitEvent ι) : Prop :=
  (s.step e).pool.destroyer = .released ∨
    (s.step e = s ∧ ∀ p, s.Helps p → ¬ Turn e p) ∨
    ((s.step e).Drains ∧ (s.step e).pool.remaining < s.pool.remaining)

theorem step_same {e : PoolEvent ι} {k : ℕ} (hpool : s.pool.step e = s.pool)
    (hafter : s.blockedAfter k e = s.blocked) : s.step (.pool e k) = s := by
  rw [WaitState.step, hpool, hafter]
  split_ifs <;> rfl

theorem Drains.lowers_destroy (h : s.Drains) (k : ℕ) : s.Lowers (.pool .destroy k) := by
  obtain ⟨hdrain, hblocked⟩ := h
  have hpool : s.pool.step .destroy = s.pool.destroyStep := step_destroy hdrain.running
  have hafter : s.blockedAfter k .destroy = s.blocked := by
    rw [blockedAfter, if_neg hdrain.called]
  have hstuck : ¬ s.Stuck .destroy := hdrain.running
  have hstep : s.step (.pool .destroy k) = ⟨s.pool.destroyStep, s.blocked⟩ := by
    rw [WaitState.step, if_neg hstuck, hpool, hafter]
  rw [Lowers, hstep]
  rcases remaining_destroy hdrain with hwait | hreleased | ⟨hdrain', hless⟩
  · refine .inr (.inl ⟨by rw [hwait], fun p hp hturn => ?_⟩)
    cases p with
    | none => exact hp hwait
    | some t =>
      obtain ⟨choice, hturn⟩ := hturn
      cases hturn
  · exact .inl hreleased
  · exact .inr (.inr ⟨⟨hdrain', hblocked⟩, hless⟩)

theorem Drains.lowers_live (h : s.Drains) {t : ThreadId} (hlive : s.pool.Live t) (k : ℕ) :
    s.Lowers (.pool (.worker t) k) := by
  obtain ⟨hdrain, hblocked⟩ := h
  have hstuck : ¬ s.Stuck (.worker t) := by
    rintro (hp | hb | hc)
    · exact hdrain.running hp
    · simp [hblocked] at hb
    · exact absurd hlive.1 (not_lt.mpr hc)
  have hpool : s.pool.step (.worker t) = s.pool.workerStep t := step_worker hdrain.running hlive.1
  obtain ⟨hdrain', hwait, hless⟩ := remaining_worker hdrain hlive
  have hafter : s.blockedAfter k (.worker t) = s.blocked := by
    rw [blockedAfter, hpool, if_neg hwait]
  rw [Lowers, WaitState.step, if_neg hstuck, hpool, hafter]
  exact .inr (.inr ⟨⟨hdrain', hblocked⟩, hless⟩)

theorem Drains.step_gone (h : s.Drains) {t : ThreadId} (hlive : ¬ s.pool.Live t) (k : ℕ) :
    s.step (.pool (.worker t) k) = s := by
  by_cases ht : t < s.pool.created
  · have hexited : s.pool.workers t = .exited := by
      by_contra hne
      exact hlive ⟨ht, hne⟩
    have hpool : s.pool.step (.worker t) = s.pool := step_exited h.1.running ht hexited
    exact step_same hpool (blockedAfter_exited (by rw [hpool, hexited]))
  · rw [WaitState.step, if_pos (.inr (.inr (not_lt.mp ht)))]

theorem Drains.lowers_worker (h : s.Drains) (t : ThreadId) (k : ℕ) :
    s.Lowers (.pool (.worker t) k) := by
  by_cases hlive : s.pool.Live t
  · exact h.lowers_live hlive k
  · refine .inr (.inl ⟨h.step_gone hlive k, fun p hp hturn => ?_⟩)
    cases p with
    | none =>
      obtain ⟨choice, hturn⟩ := hturn
      cases hturn
    | some u =>
      obtain ⟨choice, hturn⟩ := hturn
      cases hturn
      exact hlive hp

theorem Drains.lowers (h : s.Drains) (e : WaitEvent ι) : s.Lowers e := by
  have hdrain := h.1
  cases e with
  | spurious u =>
    have hsame : s.step (.spurious u) = s := by
      change { s with blocked := s.blocked.erase u } = s
      rw [h.2, List.erase_nil, ← h.2]
    exact .inr (.inl ⟨hsame, fun p _ => not_turn (by simp) (by simp)⟩)
  | pool e k =>
    cases e with
    | submit i conn mem =>
      refine .inr (.inl ⟨step_same ?_ rfl, fun p _ => not_turn (by simp) (by simp)⟩)
      rw [PoolState.step, if_neg hdrain.running, PoolState.handle]
      exact if_pos (.inl hdrain.shutdown)
    | submitLocked i oks =>
      refine .inr (.inl ⟨step_same ?_ ?_, fun p _ => not_turn (by simp) (by simp)⟩)
      · rw [PoolState.step, if_neg hdrain.running, PoolState.handle, PoolState.submitLocked,
          hdrain.callers i]
      · rw [blockedAfter, if_pos (hdrain.callers i)]
    | maybeShrink =>
      have hpool : s.pool.pool.maybeShrink = s.pool.pool := by
        rw [ThreadPool.maybeShrink, if_pos (.inr hdrain.shutdown)]
      refine .inr (.inl ⟨step_same ?_ ?_, fun p _ => not_turn (by simp) (by simp)⟩)
      · rw [PoolState.step, if_neg hdrain.running, PoolState.handle, hpool]
      · rw [blockedAfter, hpool, if_neg (lt_irrefl _)]
    | destroy => exact h.lowers_destroy k
    | worker t => exact h.lowers_worker t k

/-- From the shutdown on, the flag is set and no worker is blocked. -/
structure Shut (s : WaitState ι) : Prop where
  owned : ∃ ps, Owned s.pool ps
  handles : s.pool.Handles
  flagged : s.pool.destroyer ≠ .notCalled → s.pool.pool.shutdown = true ∧ s.blocked = []

omit [DecidableEq ι] in
theorem shut_create {maxThreads n : ℕ} {minThreads : ℤ} :
    (create maxThreads n minThreads : WaitState ι).Shut :=
  ⟨⟨[], owned_create⟩, handles_create, fun h => absurd rfl h⟩

theorem blockedAfter_worker (h : ∃ ps, Owned s.pool ps) (hshut : s.pool.pool.shutdown = true)
    {t : ThreadId} {k : ℕ} (hstuck : ¬ s.Stuck (.worker t)) :
    s.blockedAfter k (.worker t) = s.blocked := by
  obtain ⟨ps, howned⟩ := h
  obtain ⟨hp, hnot⟩ := not_or.mp hstuck
  have hpool : s.pool.step (.worker t) = s.pool.workerStep t :=
    step_worker hp (not_le.mp (not_or.mp hnot).2)
  rw [blockedAfter, hpool, if_neg]
  by_cases hexited : s.pool.workers t = .exited
  · simp [workerStep, hexited]
  · exact (drain_worker howned hshut hexited).2.1

theorem shut_step (h : s.Shut) (e : WaitEvent ι) : (s.step e).Shut := by
  cases e with
  | spurious u =>
    refine ⟨h.owned, h.handles, fun hcalled => ?_⟩
    obtain ⟨hshut, hblocked⟩ := h.flagged hcalled
    refine ⟨hshut, ?_⟩
    change s.blocked.erase u = []
    rw [hblocked, List.erase_nil]
  | pool e k =>
    rw [WaitState.step]
    split_ifs with hstuck
    · exact h
    · refine ⟨owned_step h.owned e, handles_step h.handles e, fun hcalled => ?_⟩
      by_cases he : e = .destroy
      · subst he
        have hp : ¬ s.pool.halted := hstuck
        have hpool : s.pool.step .destroy = s.pool.destroyStep := step_destroy hp
        by_cases hbefore : s.pool.destroyer = .notCalled
        · -- the broadcast wakes everyone
          rw [hpool, blockedAfter, if_pos hbefore]
          exact ⟨by simp [destroyStep, hbefore], rfl⟩
        · obtain ⟨hshut, hblocked⟩ := h.flagged hbefore
          refine ⟨shutdown_step hshut _, ?_⟩
          rw [blockedAfter, if_neg hbefore, hblocked]
      · have hcalled' : s.pool.destroyer ≠ .notCalled := by
          rwa [destroyer_step _ he] at hcalled
        obtain ⟨hshut, hblocked⟩ := h.flagged hcalled'
        refine ⟨shutdown_step hshut e, ?_⟩
        by_cases hw : ∃ t, e = .worker t
        · obtain ⟨t, rfl⟩ := hw
          rw [blockedAfter_worker h.owned hshut hstuck, hblocked]
        · have hsub := blockedAfter_sublist (s := s) k fun t ht => hw ⟨t, ht⟩
          rw [hblocked] at hsub
          exact List.sublist_nil.mp hsub

/-! ## The joins -/

/-- The call is at the join of a handle whose thread has returned. -/
def Joins (s : WaitState ι) (n j : ℤ) : Prop :=
  s.pool.destroyer = .joining n j ∧
    ∃ t, s.pool.pool.threads j = some t ∧ s.pool.workers t = .exited

/--
Before time `m` the call read the number of threads, which was `n`, and since
then it has joined the handles below `i`.
-/
def HasJoined (states : ℕ → WaitState ι) (m : ℕ) (n i : ℤ) : Prop :=
  (∃ m₀ < m, (states m₀).pool.destroyer = .flagged ∧ (states m₀).pool.pool.threadCount = n ∧
    (states (m₀ + 1)).pool.destroyer = .joining n 0) ∧
    ∀ j, 0 ≤ j → j < i → ∃ m' < m, (states m').Joins n j

omit [DecidableEq ι] in
theorem HasJoined.later {states : ℕ → WaitState ι} {m : ℕ} {n i : ℤ} (h : HasJoined states m n i) :
    HasJoined states (m + 1) n i := by
  obtain ⟨⟨m₀, hlt, hsnapshot⟩, hjoined⟩ := h
  refine ⟨⟨m₀, by omega, hsnapshot⟩, fun j hj hi => ?_⟩
  obtain ⟨m', hlt', hj'⟩ := hjoined j hj hi
  exact ⟨m', by omega, hj'⟩

/-- Where one event takes the call, and what has returned by a join. -/
theorem destroyer_cases (s : WaitState ι) (e : WaitEvent ι) :
    (s.step e).pool.destroyer = s.pool.destroyer ∨
    (s.pool.destroyer = .notCalled ∧ (s.step e).pool.destroyer = .flagged) ∨
    (s.pool.destroyer = .flagged ∧
      (s.step e).pool.destroyer = .joining s.pool.pool.threadCount 0) ∨
    (∃ n i, s.Joins n i ∧ i < n ∧ (s.step e).pool.destroyer = .joining n (i + 1)) ∨
    ∃ n i, s.pool.destroyer = .joining n i ∧ n ≤ i ∧ (s.step e).pool.destroyer = .released := by
  cases e with
  | spurious t => exact .inl rfl
  | pool e k =>
    rw [WaitState.step]
    split_ifs with hstuck
    · exact .inl rfl
    by_cases he : e = .destroy
    · subst he
      have hpool : s.pool.step .destroy = s.pool.destroyStep := step_destroy hstuck
      simp only [hpool]
      unfold destroyStep
      cases hd : s.pool.destroyer with
      | notCalled => exact .inr (.inl ⟨rfl, rfl⟩)
      | flagged => exact .inr (.inr (.inl ⟨rfl, rfl⟩))
      | released => exact .inl hd
      | joining n i =>
        by_cases hlt : i < n
        · simp only [if_pos hlt]
          cases ht : s.pool.pool.threads i with
          | none => exact .inl hd
          | some t =>
            by_cases hexited : s.pool.workers t = .exited
            · simp only [if_pos hexited]
              exact .inr (.inr (.inr (.inl ⟨n, i, ⟨hd, t, ht, hexited⟩, hlt, rfl⟩)))
            · simp only [if_neg hexited]
              exact .inl hd
        · exact .inr (.inr (.inr (.inr ⟨n, i, rfl, not_lt.mp hlt, by simp [hlt]⟩)))
    · exact .inl (destroyer_step _ he)

/-- What the call has joined when it is at a join, and when it has released the pool. -/
theorem hasJoined {maxThreads n₀ : ℕ} {minThreads : ℤ} {es : ℕ → WaitEvent ι} (m : ℕ) :
    let run := states step (create maxThreads n₀ minThreads) es
    (∀ n i, (run m).pool.destroyer = .joining n i → HasJoined run m n i) ∧
      ((run m).pool.destroyer = .released → ∃ n, HasJoined run m n n) := by
  intro run
  induction m with
  | zero => exact ⟨fun n i h => (by cases h), fun h => (by cases h)⟩
  | succ m ih =>
    obtain ⟨hjoining, hreleased⟩ := ih
    have hnext : run (m + 1) = (run m).step (es m) := rfl
    rw [hnext]
    obtain hsame | ⟨-, hcalled⟩ | ⟨hflagged, hread⟩ | ⟨n, i, hjoins, hlt, hmoved⟩ |
      ⟨n, i, hjoins, hle, hdone⟩ := destroyer_cases (run m) (es m)
    · rw [hsame]
      refine ⟨fun n i h => (hjoining n i h).later, fun h => ?_⟩
      obtain ⟨n, h⟩ := hreleased h
      exact ⟨n, h.later⟩
    · rw [hcalled]
      exact ⟨fun n i h => (by cases h), fun h => (by cases h)⟩
    · refine ⟨fun n i h => ?_, fun h => (by rw [hread] at h; cases h)⟩
      obtain ⟨rfl, rfl⟩ := DestroyPhase.joining.inj (hread.symm.trans h)
      exact ⟨⟨m, Nat.lt_succ_self m, hflagged, rfl, hread⟩, fun j hj hi => by omega⟩
    · refine ⟨fun n' i' h => ?_, fun h => (by rw [hmoved] at h; cases h)⟩
      obtain ⟨rfl, rfl⟩ := DestroyPhase.joining.inj (hmoved.symm.trans h)
      obtain ⟨hsnapshot, hbefore⟩ := (hjoining n i hjoins.1).later
      refine ⟨hsnapshot, fun j hj hi => ?_⟩
      rcases eq_or_ne j i with rfl | hne
      · exact ⟨m, Nat.lt_succ_self m, hjoins⟩
      · exact hbefore j hj (by omega)
    · refine ⟨fun n' i' h => (by rw [hdone] at h; cases h), fun _ => ⟨n, ?_⟩⟩
      obtain ⟨hsnapshot, hbefore⟩ := (hjoining n i hjoins).later
      exact ⟨hsnapshot, fun j hj hn => hbefore j hj (by omega)⟩

/--
A call of `threadpool_destroy` that comes after every submit has returned
itself returns, on every run that gives each worker and the caller a step again
and again. It has joined each handle below the number of threads it read, at a
time when the thread of the handle had returned.
-/
theorem destroy_returns {maxThreads n : ℕ} {minThreads : ℤ} {es : ℕ → WaitEvent ι}
    (hworkers : ∀ k t, t < (states step (create maxThreads n minThreads) es k).pool.created →
      ∃ m, k ≤ m ∧ ∃ choice, es m = .pool (.worker t) choice)
    (hcaller : ∀ k, ∃ m, k ≤ m ∧ ∃ choice, es m = .pool .destroy choice) {k : ℕ}
    (hcalled : (states step (create maxThreads n minThreads) es k).pool.destroyer ≠ .notCalled)
    (hsubmits : ∀ i, (states step (create maxThreads n minThreads) es k).pool.callers i = none)
    (hcrash : (states step (create maxThreads n minThreads) es k).pool.crashed = false) :
    ∃ m, k ≤ m ∧
      (states step (create maxThreads n minThreads) es m).pool.destroyer = .released ∧
      ∃ count, HasJoined (states step (create maxThreads n minThreads) es) m count count := by
  suffices hreturns : ∃ m, k ≤ m ∧
      (states step (create maxThreads n minThreads) es m).pool.destroyer = .released by
    obtain ⟨m, hm, hreleased⟩ := hreturns
    exact ⟨m, hm, hreleased, (hasJoined m).2 hreleased⟩
  by_cases hreleased :
    (states step (create maxThreads n minThreads) es k).pool.destroyer = .released
  · exact ⟨k, Nat.le_refl k, hreleased⟩
  have hshut : (states step (create maxThreads n minThreads) es k).Shut :=
    states_invariant (I := Shut) (fun s e h => shut_step h e) shut_create k
  obtain ⟨hflag, hblocked⟩ := hshut.flagged hcalled
  have hdrains : (states step (create maxThreads n minThreads) es k).Drains := by
    refine ⟨⟨hshut.owned, hshut.handles, hflag, hsubmits, hcalled, ?_⟩, hblocked⟩
    exact fun hhalted => hhalted.elim (fun h => by simp [hcrash] at h) hreleased
  have hfair : Fair step Turn Helps (create maxThreads n minThreads) es := by
    intro m p hp
    cases p with
    | none => exact hcaller m
    | some t => exact hworkers m t hp.1
  refine hfair.leadsTo (Q := fun s => s.pool.destroyer = .released) (fun s _ => s.pool.remaining)
    (fun s hs => hs.helper) (fun s e p hs hp => ?_) hdrains
  rcases hs.lowers e with hdone | ⟨hsame, hturn⟩ | ⟨hs', hless⟩
  · exact .inl hdone
  · rw [hsame]
    exact .inr ⟨hs, .inr ⟨hp, rfl, hturn p hp⟩⟩
  · obtain ⟨q, hq⟩ := hs'.helper
    exact .inr ⟨hs', .inl ⟨q, hq, hless⟩⟩

/-- The caller takes every other step, and the worker has its turns among all threads. -/
theorem destroy_returns_idle :
    let es : ℕ → WaitEvent Unit := fun m =>
      if m % 2 = 0 then .pool .destroy 0 else .pool (.worker (m / 2).unpair.1) 0
    ∃ m, 1 ≤ m ∧ (states step (create 1 1 1) es m).pool.destroyer = .released ∧
      ∃ count, HasJoined (states step (create 1 1 1) es) m count count := by
  intro es
  refine destroy_returns (fun k t _ => ?_) (fun k => ?_) (by decide) (fun _ => rfl) rfl
  · have hlarge : k ≤ Nat.pair t k := Nat.right_le_pair t k
    refine ⟨2 * Nat.pair t k + 1, by omega, 0, ?_⟩
    have hhalf : (2 * Nat.pair t k + 1) / 2 = Nat.pair t k := by omega
    simp only [es]
    rw [if_neg (by omega), hhalf, Nat.unpair_pair]
  · exact ⟨2 * k, by omega, 0, if_pos (by omega)⟩

end WaitState

end ChatServer
