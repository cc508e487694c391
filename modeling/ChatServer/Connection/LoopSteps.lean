import ChatServer.Connection.Handoff

/-! # The events of the loop

Each event keeps the connections with their holders; the two that can lose one
are a failed `epoll_add` and a failed submit of a closing connection.
-/

namespace ChatServer

open Library

namespace EventLoop

variable {s s' : EventLoop} {c : ConnPtr} {fd : Fd} {t : ThreadId} {hup : Bool}
  {mem : Option JobPtr} {rest : List (ConnPtr × Bool)}

theorem Sound.busy_step (h : s.Sound) {e : PoolEvent Unit} (he : ∀ t, e ≠ .worker t)
    (ht : s.handling t = some c) : AtJob { s with pool := s.pool.step e } t := by
  have hquiet := PoolState.step_quiet s.pool he
  obtain ⟨hcreated, job, hjob⟩ := h.busy ht
  exact ⟨hcreated.trans_le hquiet.created, job, (hquiet.workers t hcreated).trans hjob⟩

theorem accept_leaves (h : s.Sound) (fd : Fd) (conn : Option ConnPtr) (added : Bool) :
    Leaves s (s.accept fd conn added) (added = false ∧
      ∃ c, conn = some c ∧ s.conns c = none ∧ s.opened fd = false) := by
  unfold accept
  split
  · exact (Leaves.refl h).congr (by simp)
  · rename_i c
    split_ifs with hfree
    · exact (add_leaves h hfree.1 hfree.2 added).congr (by simp [hfree])
    · refine (Leaves.refl h).congr (iff_of_false not_false ?_)
      rintro ⟨-, d, hd, hnew⟩
      obtain rfl := Option.some.inj hd
      exact hfree hnew

theorem submit_step (s : PoolState Unit) (c : ConnPtr) (mem : Option JobPtr)
    (hfree : s.callers () = none) :
    ((s.step (.submit () c mem)).callers () = none ∧ s.step (.submit () c mem) = s) ∨
      ∃ job, s.jobs job = none ∧ s.step (.submit () c mem) = { s with
        jobs := Function.update s.jobs job (some ⟨c, none⟩)
        callers := Function.update s.callers () (some job) } := by
  unfold PoolState.step
  split_ifs
  · exact .inl ⟨hfree, rfl⟩
  · rw [PoolState.handle]
    rcases PoolState.submit_cases s () c mem with hsame | ⟨job, -, hjob, hsubmit⟩
    · exact .inl ⟨by rw [hsame, hfree], hsame⟩
    · exact .inr ⟨job, hjob, hsubmit⟩

theorem head_dropped (h : s.Sound) (hevents : s.events = (c, hup) :: rest) (d : ConnPtr) :
    d ∈ rest.map Prod.fst ↔ d ≠ c ∧ s.Holds .events d := by
  have hnodup := h.events
  rw [hevents, List.map_cons, List.nodup_cons] at hnodup
  simp only [Holds, hevents, List.map_cons, List.mem_cons]
  constructor
  · exact fun hd => ⟨fun hdc => hnodup.1 (hdc ▸ hd), .inr hd⟩
  · exact fun hd => hd.2.resolve_left hd.1

theorem offer_failed (h : s.Sound) (hevents : s.events = (c, hup) :: rest)
    (hsame : s.pool.step (.submit () c mem) = s.pool) :
    Drops s (s.offer c mem) .events c where
  owned := PoolState.owned_step h.owned _
  fault := h.fault
  fdOf := rfl
  opened := rfl
  interest := rfl
  events := by
    have hnodup := h.events
    rw [hevents, List.map_cons, List.nodup_cons] at hnodup
    rw [offer, hevents]
    exact hnodup.2
  queue := by
    rw [queued, offer, hsame]
    exact h.queue
  busy := h.busy_step (by simp)
  gives d := by
    rw [← head_dropped h hevents]
    simp only [Holds, offer, hevents, List.tail_cons]
  rest k hk d := by
    cases k with
    | events => exact absurd rfl hk
    | submit => simp only [Holds, submitting, offer, hsame]
    | queue => simp only [Holds, queued, offer, hsame]
    | _ => exact Iff.rfl

theorem offer_leaves (h : s.Sound) (hc : s.fdOf c = some fd) (hevents : s.events = (c, hup) :: rest)
    (hfree : s.pool.callers () = none) {job : JobPtr}
    (hstep : s.pool.step (.submit () c mem) = { s.pool with
      jobs := Function.update s.pool.jobs job (some ⟨c, none⟩)
      callers := Function.update s.pool.callers () (some job) }) :
    Leaves s (s.offer c mem) False := by
  have hg : s.Holds .events c := by simp [Holds, hevents]
  have ht : Touches s (s.offer c mem) c fd :=
    h.touches hc (fun _ _ => rfl) (fun _ _ => rfl) fun _ _ => rfl
  have hpass : Passes s.Holds (s.offer c mem).Holds c (some .submit) := by
    refine h.sole.move hg (by simp) (fun d => ?_) (fun d => ?_) fun k hk hk' d => ?_
    · rw [← head_dropped h hevents]
      simp only [Holds, offer, hevents, List.tail_cons]
    · simp [Holds, submitting, offer, hstep, hfree, eq_comm]
    · cases k with
      | events => exact absurd rfl hk
      | submit => exact absurd rfl hk'
      | queue => simp only [Holds, queued, offer, hstep]
      | _ => exact Iff.rfl
  have hnodup := h.events
  rw [hevents, List.map_cons, List.nodup_cons] at hnodup
  obtain ⟨f, armed, hf, hi⟩ := h.held hg
  obtain rfl : f = fd := Option.some.inj (hf.symm.trans hc)
  refine (Leaves.of_pass hpass ht (h.pass ht hpass (PoolState.owned_step h.owned _) h.fault
    (.inl ⟨hc, h.opened hc⟩) (.inr ⟨hc, armed, hi⟩) ?_ ?_
    fun _ _ => h.busy_step (by simp))).congr (by simp)
  · rw [offer, hevents]
    exact hnodup.2
  · rw [queued, offer, hstep]
    exact h.queue

/-- The next event of the loop loses a connection if it is closing and its submit fails. -/
theorem next_leaves (h : s.Sound) (halive : ∀ {c x}, s.conns c = some x → x.state.gone = false)
    (hfree : s.pool.callers () = none) (mem : Option JobPtr) :
    Leaves s (s.next mem) (∃ c hup x, s.events.head? = some (c, hup) ∧ s.conns c = some x ∧
      (s.pool.step (.submit () c mem)).callers () = none ∧
      (hup = true ∨ x.state.closing = true)) := by
  unfold next
  split
  · rename_i hhead
    exact (Leaves.refl h).congr (by simp [hhead])
  · rename_i c hup hhead
    obtain ⟨rest, hevents⟩ : ∃ rest, s.events = (c, hup) :: rest := by
      cases hev : s.events with
      | nil => simp [hev] at hhead
      | cons p rest =>
        obtain rfl : p = (c, hup) := by simpa [hev] using hhead
        exact ⟨rest, rfl⟩
    have hg : s.Holds .events c := by simp [Holds, hevents]
    obtain ⟨fd, -, hc, -⟩ := h.held hg
    split
    · rename_i hnone
      simp [fdOf, hnone] at hc
    · rename_i x hx
      obtain rfl : x.fd = fd := by simpa [fdOf, hx] using hc
      dsimp only
      set state := noteHup x.state hup with hstate
      have hclosing : state.closing = false ↔ ¬ (hup = true ∨ x.state.closing = true) := by
        rw [hstate, noteHup]
        cases hup <;> simp [ConnState.step, halive hx]
      have hput := put_leaves h hc state
      have hlost : (∃ c' hup' y, s.events.head? = some (c', hup') ∧ s.conns c' = some y ∧
          (s.pool.step (.submit () c' mem)).callers () = none ∧
          (hup' = true ∨ y.state.closing = true)) ↔
          (s.pool.step (.submit () c mem)).callers () = none ∧
            (hup = true ∨ x.state.closing = true) := by
        simp only [hhead, Option.some.injEq, Prod.mk.injEq]
        constructor
        · rintro ⟨c', hup', y, ⟨rfl, rfl⟩, hy, hlost⟩
          obtain rfl := Option.some.inj (hx.symm.trans hy)
          exact hlost
        · exact fun hlost => ⟨c, hup, x, ⟨rfl, rfl⟩, hx, hlost⟩
      rw [hlost]
      have hc' : (s.put c ⟨x.fd, state⟩).fdOf c = some x.fd := by rw [put_fdOf hc, hc]
      rcases submit_step s.pool c mem hfree with ⟨hfail, hsame⟩ | ⟨job, -, hsubmit⟩
      · have hdrops : Drops (s.put c ⟨x.fd, state⟩) ((s.put c ⟨x.fd, state⟩).offer c mem)
            .events c := offer_failed hput.sound hevents hsame
        split_ifs with hrearm
        · have hopen : state.closing = false := hrearm.2
          have hleaves := hdrops.rearm_leaves hput.sound hc' (put_holds _ hg) (by simp)
          refine (hput.trans hleaves).congr ?_
          simp [hfail, hclosing.mp hopen]
        · have hclosed : hup = true ∨ x.state.closing = true := by
            by_contra hno
            exact hrearm ⟨hfail, hclosing.mpr hno⟩
          refine (hput.trans (hdrops.lost_leaves hput.sound hc' (put_holds _ hg))).congr ?_
          simp [hfail, hclosed]
      · have hjob : (s.pool.step (.submit () c mem)).callers () ≠ none := by simp [hsubmit]
        rw [if_neg (fun hrearm => hjob hrearm.1)]
        refine (hput.trans (offer_leaves hput.sound hc' hevents hfree hsubmit)).congr ?_
        simp [hjob]

theorem submitted_step (s : PoolState Unit) (oks : List Bool) :
    s.step (.submitLocked () oks) = s ∨ ∃ job, s.callers () = some job ∧
      (s.step (.submitLocked () oks)).owners = (s.enqueue () job).owners := by
  unfold PoolState.step
  split_ifs
  · exact .inl rfl
  · rw [PoolState.handle, PoolState.submitLocked]
    split
    · exact .inl rfl
    · rename_i job hjob
      exact .inr ⟨job, hjob, PoolState.scaleUp_owners _ oks⟩

theorem submitted_leaves (h : s.Sound) (oks : List Bool) :
    Leaves s { s with pool := s.pool.step (.submitLocked () oks) } False := by
  rcases submitted_step s.pool oks with hsame | ⟨job, hjob, howners⟩
  · rw [hsame]
    exact .refl h
  set pool := s.pool.step (.submitLocked () oks) with hpool
  obtain ⟨ps, hps⟩ := h.owned
  obtain ⟨⟨c, hnode⟩, -⟩ := hps.caller hjob
  simp only [PoolState.owners, PoolState.enqueue, hnode, Option.map_some, Option.toList_some,
    Prod.mk.injEq] at howners
  obtain ⟨-, -, -, -, hcallers, haccepted, hdequeued⟩ := howners
  have hsub : s.submitting = some c := by simp [submitting, hjob, hnode]
  have hg : s.Holds .submit c := hsub
  have hsub' : ({ s with pool } : EventLoop).submitting = none := by
    simp [submitting, hcallers]
  have hqueued : ({ s with pool } : EventLoop).queued = s.queued ++ [c] := by
    have hlen : s.pool.dequeued.length ≤ s.pool.accepted.length := by
      rw [← hps.order, List.length_append]
      omega
    simp only [queued, haccepted, hdequeued, List.drop_append_of_le_length hlen]
  obtain ⟨fd, armed, hc, hi⟩ := h.held hg
  have ht : Touches s { s with pool } c fd :=
    h.touches hc (fun _ _ => rfl) (fun _ _ => rfl) fun _ _ => rfl
  have hpass : Passes s.Holds ({ s with pool } : EventLoop).Holds c (some .queue) := by
    refine h.sole.move hg (by simp) (fun d => ?_) (fun d => ?_) fun k hk hk' d => ?_
    · simp [Holds, hsub, hsub', eq_comm]
    · simp [Holds, hqueued, or_comm]
    · cases k with
      | submit => exact absurd rfl hk
      | queue => exact absurd rfl hk'
      | _ => exact Iff.rfl
  have hnew : c ∉ s.queued := fun hq => by cases h.sole c .submit .queue hg hq
  refine (Leaves.of_pass hpass ht (h.pass ht hpass (PoolState.owned_step h.owned _) h.fault
    (.inl ⟨hc, h.opened hc⟩) (.inr ⟨hc, armed, hi⟩) h.events ?_
    fun _ _ => h.busy_step (by simp))).congr (by simp)
  rw [hqueued]
  exact h.queue.append (List.nodup_singleton c) (by simpa using hnew)

theorem pool_leaves (h : s.Sound) {e : PoolEvent Unit} (he : ∀ t, e ≠ .worker t)
    (howners : (s.pool.step e).owners = s.pool.owners) :
    Leaves s { s with pool := s.pool.step e } False := by
  simp only [PoolState.owners, Prod.mk.injEq] at howners
  obtain ⟨hjobs, -, -, -, hcallers, haccepted, hdequeued⟩ := howners
  have hqueued : ({ s with pool := s.pool.step e } : EventLoop).queued = s.queued := by
    simp only [queued, haccepted, hdequeued]
  have hholds : ({ s with pool := s.pool.step e } : EventLoop).Holds = s.Holds := by
    funext k d
    cases k with
    | submit => simp only [Holds, submitting, hjobs, hcallers]
    | queue => simp only [Holds, hqueued]
    | _ => rfl
  exact .of_same rfl hholds (h.same (PoolState.owned_step h.owned _) rfl rfl rfl rfl rfl hholds
    hqueued fun _ _ => h.busy_step he)

theorem maybeShrink_owners (s : PoolState Unit) : (s.step .maybeShrink).owners = s.owners := by
  unfold PoolState.step
  split_ifs
  · rfl
  · simp only [PoolState.handle, ThreadPool.maybeShrink]
    split_ifs <;> rfl

theorem destroy_owners (s : PoolState Unit) : (s.step .destroy).owners = s.owners := by
  unfold PoolState.step
  split_ifs
  · rfl
  · obtain ⟨shutdown, destroyer, hdestroy⟩ := PoolState.destroyStep_eq s
    rw [PoolState.handle, hdestroy]
    rfl

theorem workerStep_pool (hcreated : t < s.pool.created) (hp : ¬ s.pool.halted) :
    (s.workerStep t).pool = s.pool.workerStep t := PoolState.step_worker hp hcreated

theorem workerStep_created (hcreated : t < s.pool.created) (hp : ¬ s.pool.halted) :
    (s.workerStep t).pool.created = s.pool.created := by
  rw [workerStep_pool hcreated hp]
  have hfixed := (PoolState.moved_worker hp hcreated).fixed
  simp only [PoolState.fixed, Prod.mk.injEq] at hfixed
  exact hfixed.2.2.1

theorem worker_atJob (h : s.Sound) (hcreated : t < s.pool.created) (hp : ¬ s.pool.halted)
    {u : ThreadId} {d : ConnPtr} (hne : u ≠ t) (hu : s.handling u = some d) :
    (s.workerStep t).AtJob u := by
  obtain ⟨hlt, job, hjob⟩ := h.busy hu
  rw [AtJob, workerStep_created hcreated hp, workerStep_pool hcreated hp]
  exact ⟨hlt, job, ((PoolState.moved_worker hp hcreated).others u hne).trans hjob⟩

/-- The first connection of the queue passes to a worker that has none. -/
theorem take_passes (h : s.Sound) (ht : s.handling t = none) {q : List ConnPtr}
    (hqueue : s.queued = c :: q) (hqueue' : s'.queued = q)
    (hhandling : s'.handling = Function.update s.handling t (some c))
    (hsub : s'.submitting = s.submitting) (hinterest : s'.interest = s.interest)
    (hevents : s'.events = s.events) : Passes s.Holds s'.Holds c (some (.worker t)) := by
  have hg : s.Holds .queue c := by simp [Holds, hqueue]
  have hnodup := h.queue
  rw [hqueue, List.nodup_cons] at hnodup
  refine h.sole.move hg (by simp) (fun d => ?_) (fun d => ?_) fun k hk hk' d => ?_
  · simp only [Holds, hqueue, hqueue', List.mem_cons]
    refine ⟨fun hd => ⟨?_, .inr hd⟩, fun hd => hd.2.resolve_left hd.1⟩
    rintro rfl
    exact hnodup.1 hd
  · simp [Holds, hhandling, ht, eq_comm]
  · cases k with
    | queue => exact absurd rfl hk
    | submit => simp only [Holds, hsub]
    | worker u =>
      have hne : u ≠ t := fun hut => hk' (hut ▸ rfl)
      simp only [Holds, hhandling, Function.update_of_ne hne]
    | kernel => simp only [Holds, hinterest]
    | events => simp only [Holds, hevents]

theorem worker_leaves (h : s.Sound) (ht : s.handling t = none) (hcreated : t < s.pool.created)
    (hp : ¬ s.pool.halted) : Leaves s (s.workerStep t) False := by
  obtain ⟨ps, hps⟩ := h.owned
  have hpool : s.pool.step (.worker t) = s.pool.workerStep t := PoolState.step_worker hp hcreated
  have howned : ∃ ps, PoolState.Owned (s.workerStep t).pool ps := PoolState.owned_step h.owned _
  cases hps.turn t with
  | take job c rest first working node jobs dequeued accepted callers =>
    have hhandling : (s.workerStep t).handling = Function.update s.handling t (some c) := by
      simp only [workerStep, hpool, working, node]
    have hqueue : s.queued = c :: rest.map Prod.snd := by rw [queued_eq hps, first, List.map_cons]
    have hqueue' : (s.workerStep t).queued = rest.map Prod.snd := by
      simp only [queued, workerStep, hpool, dequeued, accepted] at hqueue ⊢
      rw [List.length_append, ← List.drop_drop, hqueue]
      rfl
    have hsub : (s.workerStep t).submitting = s.submitting := by
      simp only [submitting, workerStep, hpool, jobs, callers]
    have hg : s.Holds .queue c := by simp [Holds, hqueue]
    obtain ⟨fd, armed, hc, hi⟩ := h.held hg
    have htouch : Touches s (s.workerStep t) c fd :=
      h.touches hc (fun _ _ => rfl) (fun _ _ => rfl) fun _ _ => rfl
    have hpass := take_passes h ht hqueue hqueue' hhandling hsub rfl rfl
    have hnodup := h.queue
    rw [hqueue, List.nodup_cons] at hnodup
    refine (Leaves.of_pass hpass htouch (h.pass htouch hpass howned h.fault
      (.inl ⟨hc, h.opened hc⟩) (.inr ⟨hc, armed, hi⟩) h.events (hqueue' ▸ hnodup.2)
      fun u d hu => ?_)).congr (by simp)
    by_cases hne : u = t
    · subst hne
      rw [AtJob, workerStep_created hcreated hp, workerStep_pool hcreated hp]
      exact ⟨hcreated, job, working⟩
    · rw [hhandling, Function.update_of_ne hne] at hu
      exact worker_atJob h hcreated hp hne hu
  | other idle dequeued accepted callers jobs =>
    have hhandling : (s.workerStep t).handling = s.handling := by
      simp only [workerStep, hpool]
    have hqueued : (s.workerStep t).queued = s.queued := by
      simp only [queued, workerStep, hpool, dequeued, accepted]
    have hsub : (s.workerStep t).submitting = s.submitting := by
      simp only [submitting, workerStep, hpool, callers]
      cases hcaller : s.pool.callers () with
      | none => rfl
      | some job =>
        simp only [Option.bind_some]
        rw [jobs job fun hw => (hps.caller hcaller).2.2.2 t hw]
    have hholds : (s.workerStep t).Holds = s.Holds := by
      funext k d
      cases k with
      | submit => simp only [Holds, hsub]
      | queue => simp only [Holds, hqueued]
      | worker u => simp only [Holds, hhandling]
      | _ => rfl
    refine .of_same rfl hholds (h.same howned rfl rfl rfl rfl rfl hholds hqueued fun u d hu => ?_)
    rw [hhandling] at hu
    by_cases hne : u = t
    · subst hne
      rw [ht] at hu
      cases hu
    · exact worker_atJob h hcreated hp hne hu

theorem letGo_drops (h : s.Sound) (ht : s.handling t = some c) :
    Drops s (s.letGo t) (.worker t) c where
  owned := h.owned
  fault := h.fault
  fdOf := rfl
  opened := rfl
  interest := rfl
  events := h.events
  queue := h.queue
  busy {u d} hu := by
    by_cases hne : u = t
    · subst hne
      simp [letGo] at hu
    · exact h.busy ((Function.update_of_ne hne _ _).symm.trans hu)
  gives d := by simp [Holds, letGo, ht, eq_comm]
  rest k hk d := by
    cases k with
    | worker u =>
      have hne : u ≠ t := fun hut => hk (hut ▸ rfl)
      simp only [Holds, letGo, Function.update_of_ne hne]
    | _ => exact Iff.rfl

theorem finish_leaves (h : s.Sound) (t : ThreadId) (attempts : List Attempt) :
    Leaves s (s.finish t attempts) False := by
  unfold finish
  split
  · exact .refl h
  · rename_i c ht
    have hg : s.Holds (.worker t) c := ht
    obtain ⟨fd, -, hc, -⟩ := h.held hg
    split
    · rename_i hnone
      simp [fdOf, hnone] at hc
    · rename_i x hx
      obtain rfl : x.fd = fd := by simpa [fdOf, hx] using hc
      dsimp only
      have hput := put_leaves h hc (x.state.step (.call attempts))
      have hc' := (congrFun (put_fdOf hc (x.state.step (.call attempts))) c).trans hc
      have hdrops := letGo_drops hput.sound ht
      split_ifs
      · exact hput.trans (hdrops.free_leaves hput.sound hc' (put_holds _ hg) (by simp))
      · exact hput.trans (hdrops.rearm_leaves hput.sound hc' (put_holds _ hg) (by simp))

theorem arrive_leaves (h : s.Sound) (c : ConnPtr) (bytes : List Char) (closes : Bool) :
    Leaves s (s.arrive c bytes closes) False := by
  unfold arrive
  split
  · exact .refl h
  · rename_i x hx
    exact put_leaves h (by simp [fdOf, hx]) _

/-- No allocated connection is one that `handle_client` has closed. -/
def Alive (s : EventLoop) : Prop := ∀ {c x}, s.conns c = some x → x.state.gone = false

/--
A step that leaves an open connection without a holder: `epoll_add` fails, or
`threadpool_submit` does for a connection that is closing.
-/
def Loses (s : EventLoop) : LoopEvent → Prop
  | .accept fd conn added => s.AtLoop ∧ ¬ s.pool.halted ∧ added = false ∧
    ∃ c, conn = some c ∧ s.conns c = none ∧ s.opened fd = false
  | .next mem => s.AtLoop ∧ ¬ s.pool.halted ∧ ∃ c hup x, s.events.head? = some (c, hup) ∧
    s.conns c = some x ∧ (s.pool.step (.submit () c mem)).callers () = none ∧
    (hup = true ∨ x.state.closing = true)
  | _ => False

theorem step_leaves (h : s.Sound) (halive : s.Alive) (e : LoopEvent) :
    Leaves s (s.step e) (s.Loses e) := by
  unfold step
  split_ifs with hp
  · refine (Leaves.refl h).congr ?_
    cases e <;> simp [Loses, hp]
  · cases e with
    | accept fd conn added =>
      simp only [handle, Loses]
      split_ifs with hloop
      · exact (accept_leaves h fd conn added).congr (by simp [hloop, hp])
      · exact (Leaves.refl h).congr (by simp [hloop])
    | wait ready =>
      simp only [handle, Loses]
      split_ifs
      · exact wait_leaves h _
      · exact .refl h
    | next mem =>
      simp only [handle, Loses]
      split_ifs with hloop
      · exact (next_leaves h halive hloop.1 mem).congr (by simp [hloop, hp])
      · exact (Leaves.refl h).congr (by simp [hloop])
    | submitted oks => exact submitted_leaves h oks
    | maybeShrink =>
      simp only [handle, Loses]
      split_ifs
      · exact pool_leaves h (by simp) (maybeShrink_owners s.pool)
      · exact .refl h
    | destroy =>
      simp only [handle, Loses]
      split_ifs
      · exact pool_leaves h (by simp) (destroy_owners s.pool)
      · exact .refl h
    | worker t =>
      simp only [handle, Loses]
      split_ifs with ht
      · exact worker_leaves h ht.1 ht.2 hp
      · exact .refl h
    | finish t attempts => exact finish_leaves h t attempts
    | arrive c bytes closes => exact arrive_leaves h c bytes closes

end EventLoop

end ChatServer
