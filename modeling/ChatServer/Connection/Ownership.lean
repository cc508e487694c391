import ChatServer.Connection.EventLoop
import ChatServer.Connection.Framing
import ChatServer.Library.Holders
import ChatServer.Pool.Progress

/-! # Who holds a connection

A connection is with the kernel, among the events of the loop, in a submit, in
the queue of the pool, or with a worker in `handle_client`, and with one of
them only. So no two workers run `handle_client` on one connection, and none
runs it on a connection that has been freed.
-/

namespace ChatServer

open Library

namespace PoolState

variable {ι : Type*} {s : PoolState ι} {ps : List (JobPtr × ConnPtr)} {t : ThreadId}

theorem createWorkers_owners (s : PoolState ι) (k : ℕ) (oks : List Bool) :
    (s.createWorkers k oks).owners = s.owners := by
  induction k generalizing s oks with
  | zero => rfl
  | succ k ih =>
    unfold createWorkers
    split_ifs
    · rfl
    · exact ih _ _
    · exact ih _ _

theorem scaleUp_owners (s : PoolState ι) (oks : List Bool) : (s.scaleUp oks).owners = s.owners := by
  unfold scaleUp
  split_ifs
  · exact createWorkers_owners s _ oks
  · rfl

/-- A step of a worker: it takes the first job of the queue, or has none after it. -/
inductive Turn (s s' : PoolState ι) (ps : List (JobPtr × ConnPtr)) (t : ThreadId) : Prop
  | take (job : JobPtr) (conn : ConnPtr) (rest : List (JobPtr × ConnPtr))
      (first : ps = (job, conn) :: rest) (working : s'.workers t = .working job)
      (node : (s'.jobs job).map Node.val = some conn) (jobs : s'.jobs = s.jobs)
      (dequeued : s'.dequeued = s.dequeued ++ [conn]) (accepted : s'.accepted = s.accepted)
      (callers : s'.callers = s.callers)
  | other (idle : ∀ p, s'.workers t ≠ .working p) (dequeued : s'.dequeued = s.dequeued)
      (accepted : s'.accepted = s.accepted) (callers : s'.callers = s.callers)
      (jobs : ∀ p, s.workers t ≠ .working p → s'.jobs p = s.jobs p)

theorem Owned.dequeue_turn (h : Owned s ps) (k : ℤ) (ht : ∀ p, s.workers t ≠ .working p) :
    Turn s ((s.addIdle k).dequeue t) ps t := by
  have hlinked := h.linked.chain
  cases ps with
  | nil =>
    have hhead : s.pool.head = none := hlinked
    have hstep : (s.addIdle k).dequeue t = { s.addIdle k with crashed := true } := by
      simp [PoolState.dequeue, PoolState.addIdle, hhead]
    rw [hstep]
    exact .other ht rfl rfl rfl fun _ _ => rfl
  | cons p rest =>
    obtain ⟨job, conn⟩ := p
    obtain ⟨hhead, next, hnode, -⟩ := hlinked
    have hstep : (s.addIdle k).dequeue t =
        { s.addIdle k with
          pool := { (s.addIdle k).pool with
            head := next
            tail := if next = none then none else s.pool.tail
            queueSize := s.pool.queueSize - 1 }
          workers := Function.update s.workers t (.working job)
          dequeued := s.dequeued ++ [conn] } := by
      simp only [PoolState.dequeue, PoolState.addIdle, hhead, hnode]
    rw [hstep]
    exact .take job conn rest rfl (Function.update_self _ _ _)
      (by simp only [PoolState.addIdle, hnode, Option.map_some]) rfl rfl rfl rfl

theorem Owned.wake_turn (h : Owned s ps) (k : ℤ) (ht : ∀ p, s.workers t ≠ .working p) :
    Turn s ((s.addIdle k).wake t) ps t := by
  unfold PoolState.wake
  split
  · exact .other (by simp [PoolState.setWorker]) rfl rfl rfl fun _ _ => rfl
  · exact .other (by simp [PoolState.setWorker]) rfl rfl rfl fun _ _ => rfl
  · exact .other (by simp [PoolState.takeExit, PoolState.setWorker]) rfl rfl rfl fun _ _ => rfl
  · have hsum : (s.addIdle k).addIdle (-1) = s.addIdle (k + -1) := by
      simp [PoolState.addIdle, Int.add_assoc]
    rw [hsum]
    exact h.dequeue_turn _ ht

theorem Owned.turn (h : Owned s ps) (t : ThreadId) : Turn s (s.workerStep t) ps t := by
  unfold PoolState.workerStep
  split
  · rename_i hphase
    exact h.wake_turn 1 (by simp [hphase])
  · rename_i hphase
    have hturn := h.wake_turn 0 (t := t) (by simp [hphase])
    rwa [addIdle_zero] at hturn
  · rename_i job hphase
    refine .other ?_ rfl rfl rfl fun p hp => Function.update_of_ne ?_ _ _
    · simp only [PoolState.setWorker, Function.update_self]
      split_ifs <;> simp
    · rintro rfl
      exact hp hphase
  · rename_i hphase
    split_ifs
    · exact .other (by simp [PoolState.takeExit, PoolState.setWorker]) rfl rfl rfl fun _ _ => rfl
    · exact .other (by simp [PoolState.setWorker]) rfl rfl rfl fun _ _ => rfl
  · rename_i hphase
    exact .other (by simp [hphase]) rfl rfl rfl fun _ _ => rfl

end PoolState

/-- Where a connection may be. -/
inductive Holder where
  | kernel | events | submit | queue
  | worker (t : ThreadId)
  deriving DecidableEq, Repr

namespace EventLoop

variable {s s' : EventLoop} {c : ConnPtr} {t : ThreadId}

/-- The connection whose submit has its job and not yet the lock. -/
def submitting (s : EventLoop) : Option ConnPtr :=
  (s.pool.callers ()).bind fun job => (s.pool.jobs job).map Node.val

/-- The connections accepted by the pool and not yet dequeued. -/
def queued (s : EventLoop) : List ConnPtr := s.pool.accepted.drop s.pool.dequeued.length

/-- The descriptor of an allocated connection. -/
def fdOf (s : EventLoop) (c : ConnPtr) : Option Fd := (s.conns c).map LoopConn.fd

def Holds (s : EventLoop) : Holder → ConnPtr → Prop
  | .kernel, c => ∃ fd, s.interest fd = some ⟨c, true⟩
  | .events, c => c ∈ s.events.map Prod.fst
  | .submit, c => s.submitting = some c
  | .queue, c => c ∈ s.queued
  | .worker t, c => s.handling t = some c

/-- The worker has a job. -/
def AtJob (s : EventLoop) (t : ThreadId) : Prop :=
  t < s.pool.created ∧ ∃ job, s.pool.workers t = .working job

/-- A connection has its descriptor to itself, and its holder has an entry for it. -/
structure Sound (s : EventLoop) : Prop where
  owned : ∃ ps, PoolState.Owned s.pool ps
  fault : s.faulted = false
  entry : ∀ {fd i}, s.interest fd = some i → s.fdOf i.conn = some fd
  opened : ∀ {c fd}, s.fdOf c = some fd → s.opened fd = true
  fds : ∀ {c d fd}, s.fdOf c = some fd → s.fdOf d = some fd → c = d
  sole : Sole s.Holds
  events : (s.events.map Prod.fst).Nodup
  queue : s.queued.Nodup
  held : ∀ {h c}, s.Holds h c → ∃ fd armed, s.fdOf c = some fd ∧ s.interest fd = some ⟨c, armed⟩
  busy : ∀ {t c}, s.handling t = some c → s.AtJob t

theorem not_holds_init {maxThreads n : ℕ} {minThreads : ℤ} (h : Holder) (c : ConnPtr) :
    ¬ (init maxThreads n minThreads).Holds h c := by
  cases h <;> simp [Holds, init, submitting, queued, PoolState.create]

theorem sound_init {maxThreads n : ℕ} {minThreads : ℤ} : (init maxThreads n minThreads).Sound where
  owned := ⟨[], PoolState.owned_create⟩
  fault := rfl
  entry := nofun
  opened := nofun
  fds := nofun
  sole c h _ hc := absurd hc (not_holds_init h c)
  events := List.nodup_nil
  queue := List.nodup_nil
  held hc := absurd hc (not_holds_init _ _)
  busy := nofun

theorem queued_eq {ps : List (JobPtr × ConnPtr)} (h : PoolState.Owned s.pool ps) :
    s.queued = ps.map Prod.snd := by
  rw [queued, ← h.order, List.drop_left]

/-- What a step does to a descriptor and the connection on it, and to no other. -/
structure Touches (s s' : EventLoop) (c : ConnPtr) (fd : Fd) : Prop where
  own : ∀ {f}, s.fdOf c = some f → f = fd
  alone : ∀ {d}, s.fdOf d = some fd → d = c
  conns : ∀ d, d ≠ c → s'.fdOf d = s.fdOf d
  opened : ∀ f, f ≠ fd → s'.opened f = s.opened f
  interest : ∀ f, f ≠ fd → s'.interest f = s.interest f

theorem Sound.touches (h : s.Sound) {fd : Fd} (hc : s.fdOf c = some fd)
    (hconns : ∀ d, d ≠ c → s'.fdOf d = s.fdOf d) (hopened : ∀ f, f ≠ fd → s'.opened f = s.opened f)
    (hinterest : ∀ f, f ≠ fd → s'.interest f = s.interest f) : Touches s s' c fd :=
  ⟨fun hf => Option.some.inj (hf.symm.trans hc), fun hd => h.fds hd hc, hconns, hopened, hinterest⟩

/-- A step that passes one connection on. -/
theorem Sound.pass (h : s.Sound) {fd : Fd} {dest : Option Holder} (ht : Touches s s' c fd)
    (hpass : Passes s.Holds s'.Holds c dest) (howned : ∃ ps, PoolState.Owned s'.pool ps)
    (hfault : s'.faulted = false)
    (hself : s'.fdOf c = some fd ∧ s'.opened fd = true ∨ s'.fdOf c = none)
    (hentry : s'.interest fd = none ∧ dest = none ∨
      s'.fdOf c = some fd ∧ ∃ armed, s'.interest fd = some ⟨c, armed⟩)
    (hevents : (s'.events.map Prod.fst).Nodup) (hqueue : s'.queued.Nodup)
    (hbusy : ∀ t d, s'.handling t = some d → s'.AtJob t) : s'.Sound := by
  have hown : ∀ {f}, s'.fdOf c = some f → f = fd := by
    intro f hf
    rcases hself with ⟨hc, -⟩ | hc
    · exact Option.some.inj (hf.symm.trans hc)
    · rw [hc] at hf
      cases hf
  have hother : ∀ {d f}, d ≠ c → s.fdOf d = some f → f ≠ fd := by
    rintro d f hne hd rfl
    exact hne (ht.alone hd)
  refine ⟨howned, hfault, ?_, ?_, ?_, h.sole.passes hpass, hevents, hqueue, ?_,
    fun ht => hbusy _ _ ht⟩
  · intro f i hi
    rcases eq_or_ne f fd with rfl | hf
    · rcases hentry with ⟨hnone, -⟩ | ⟨hc, armed, hsome⟩
      · rw [hnone] at hi
        cases hi
      · rw [← Option.some.inj (hsome.symm.trans hi)]
        exact hc
    · rw [ht.interest f hf] at hi
      have hi' := h.entry hi
      rwa [ht.conns]
      exact fun hc => hf (ht.own (hc ▸ hi'))
  · intro d f hd
    rcases eq_or_ne d c with rfl | hne
    · obtain rfl := hown hd
      rcases hself with ⟨-, hopen⟩ | hc
      · exact hopen
      · rw [hc] at hd
        cases hd
    · rw [ht.conns d hne] at hd
      rw [ht.opened f (hother hne hd)]
      exact h.opened hd
  · intro d d' f hd hd'
    by_cases hne : d = c <;> by_cases hne' : d' = c
    · exact hne.trans hne'.symm
    · rw [ht.conns d' hne'] at hd'
      exact absurd (hown (hne ▸ hd)) (hother hne' hd')
    · rw [ht.conns d hne] at hd
      exact absurd (hown (hne' ▸ hd')) (hother hne hd)
    · rw [ht.conns d hne] at hd
      rw [ht.conns d' hne'] at hd'
      exact h.fds hd hd'
  · intro g d hd
    rcases eq_or_ne d c with rfl | hne
    · rcases hentry with ⟨-, hdest⟩ | ⟨hc, armed, hsome⟩
      · rw [(hpass.passed g).mp hd] at hdest
        cases hdest
      · exact ⟨fd, armed, hc, hsome⟩
    · obtain ⟨f, armed, hf, hi⟩ := h.held ((hpass.others g d hne).mp hd)
      exact ⟨f, armed, (ht.conns d hne).trans hf, (ht.interest f (hother hne hf)).trans hi⟩

theorem Sound.same (h : s.Sound) (howned : ∃ ps, PoolState.Owned s'.pool ps)
    (hfault : s'.faulted = s.faulted) (hfd : s'.fdOf = s.fdOf) (hopened : s'.opened = s.opened)
    (hinterest : s'.interest = s.interest) (hevents : s'.events = s.events)
    (hholds : s'.Holds = s.Holds) (hqueue : s'.queued = s.queued)
    (hbusy : ∀ t d, s'.handling t = some d → s'.AtJob t) : s'.Sound where
  owned := howned
  fault := hfault.trans h.fault
  entry := by
    rw [hinterest, hfd]
    exact h.entry
  opened := by
    rw [hopened, hfd]
    exact h.opened
  fds := by
    rw [hfd]
    exact h.fds
  sole := by
    rw [hholds]
    exact h.sole
  events := by
    rw [hevents]
    exact h.events
  queue := by
    rw [hqueue]
    exact h.queue
  held := by
    rw [hholds, hfd, hinterest]
    exact h.held
  busy ht := hbusy _ _ ht

end EventLoop

end ChatServer
