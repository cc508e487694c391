import ChatServer.Connection.LoopSteps

/-! # A connection is handled by one worker

What holds in every state that the main thread and the workers reach.
-/

namespace ChatServer

open Library

namespace EventLoop

variable {s : EventLoop} {c : ConnPtr}

/-- The lines processed of every connection are those of the bytes received. -/
def LinesFramed (s : EventLoop) : Prop :=
  ∀ c x, s.conns c = some x → x.state.gone = false ∧ x.state.Framed

theorem LinesFramed.put (h : s.LinesFramed) {x : LoopConn}
    (hx : x.state.gone = false ∧ x.state.Framed) : (s.put c x).LinesFramed := by
  intro d y hy
  by_cases hne : d = c
  · subst hne
    obtain rfl : x = y := by simpa [EventLoop.put] using hy
    exact hx
  · exact h d y ((Function.update_of_ne hne _ _).symm.trans hy)

theorem linesFramed_init {maxThreads n : ℕ} {minThreads : ℤ} :
    (init maxThreads n minThreads).LinesFramed := by
  intro c x hx
  cases hx

theorem framed_event {x : ConnState} (hx : x.gone = false ∧ x.Framed) {e : ConnEvent}
    (hopen : (x.step e).gone = false) : (x.step e).gone = false ∧ (x.step e).Framed :=
  ⟨hopen, ConnState.framed_step (fun _ => hx.2) e hopen⟩

theorem arrive_gone (x : ConnState) (bytes : List Char) (closes : Bool) :
    (x.arrive bytes closes).gone = x.gone := by
  unfold ConnState.arrive
  split_ifs <;> rfl

theorem LinesFramed.rearm (h : s.LinesFramed) (c : ConnPtr) (fd : Fd) :
    (s.rearm c fd).LinesFramed := by
  unfold EventLoop.rearm
  split_ifs <;> exact h

theorem LinesFramed.deliver (h : s.LinesFramed) (ready : Fd × Bool) :
    (s.deliver ready).LinesFramed := by
  unfold EventLoop.deliver
  split
  · exact h
  · split_ifs <;> exact h

theorem LinesFramed.wait (h : s.LinesFramed) (ready : List (Fd × Bool)) :
    (ready.foldl EventLoop.deliver s).LinesFramed := by
  induction ready generalizing s with
  | nil => exact h
  | cons r ready ih => exact ih (h.deliver r)

theorem LinesFramed.next (h : s.LinesFramed) (mem : Option JobPtr) : (s.next mem).LinesFramed := by
  unfold EventLoop.next
  split
  · exact h
  · rename_i c hup hhead
    split
    · exact h
    · rename_i x hx
      have hstate := h c x hx
      dsimp only
      have hput : (s.put c ⟨x.fd, noteHup x.state hup⟩).LinesFramed := by
        refine h.put ?_
        unfold noteHup
        split_ifs
        · exact framed_event hstate (by simp [ConnState.step, hstate.1])
        · exact hstate
      split_ifs
      · exact LinesFramed.rearm (s := (s.put c _).offer c mem) hput c x.fd
      · exact hput

theorem LinesFramed.finish (h : s.LinesFramed) (t : ThreadId) (attempts : List Attempt) :
    (s.finish t attempts).LinesFramed := by
  unfold EventLoop.finish
  split
  · exact h
  · rename_i c ht
    split
    · exact h
    · rename_i x hx
      dsimp only
      split_ifs with hgone
      · intro d y hy
        by_cases hne : d = c
        · subst hne
          simp [free] at hy
        · refine h d y ?_
          simpa [free, letGo, EventLoop.put, hne] using hy
      · refine LinesFramed.rearm ?_ c x.fd
        exact h.put (framed_event (h c x hx) (by simpa using hgone))

theorem linesFramed_step (h : s.LinesFramed) (e : LoopEvent) : (s.step e).LinesFramed := by
  unfold step
  split_ifs
  · exact h
  · cases e with
    | accept fd conn added =>
      simp only [handle, accept]
      split_ifs
      · split
        · exact h
        · split_ifs
          · exact LinesFramed.put (x := ⟨fd, .create⟩) h ⟨rfl, ConnState.framed_create⟩
          · exact h
      · exact h
    | wait ready =>
      simp only [handle]
      split_ifs
      · exact h.wait _
      · exact h
    | next mem =>
      simp only [handle]
      split_ifs
      · exact h.next mem
      · exact h
    | submitted oks => exact h
    | maybeShrink => simp only [handle]; split_ifs <;> exact h
    | destroy => simp only [handle]; split_ifs <;> exact h
    | worker t => simp only [handle]; split_ifs <;> exact h
    | finish t attempts => exact h.finish t attempts
    | arrive c bytes closes =>
      simp only [handle, arrive]
      split
      · exact h
      · rename_i x hx
        refine h.put (framed_event (h c x hx) ?_)
        have hopen := (h c x hx).1
        rw [ConnState.step, if_neg (by simp [hopen])]
        exact (arrive_gone x.state bytes closes).trans hopen

theorem run_sound (maxThreads n : ℕ) (minThreads : ℤ) (events : List LoopEvent) :
    (run step (init maxThreads n minThreads) events).Sound ∧
      (run step (init maxThreads n minThreads) events).LinesFramed :=
  run_invariant (I := fun s : EventLoop => s.Sound ∧ s.LinesFramed)
    (fun _ e h => ⟨(step_leaves h.1 (fun hx => (h.2 _ _ hx).1) e).sound, linesFramed_step h.2 e⟩)
    ⟨sound_init, linesFramed_init⟩ events

/-- A worker comes to the end of `handle_client` while no other worker is in it. -/
def Solo (s : EventLoop) (e : LoopEvent) : Prop :=
  ∀ t attempts, e = .finish t attempts → ∀ u, u ≠ t → s.handling u = none

/--
In every state that the main thread and the workers reach, however their steps
interleave, a connection that a worker handles is allocated, its entry is
disabled, nobody else is on the way to handling it, and no other worker does.
So no event and no job names a freed connection. Where the calls of
`handle_client` come one after the other, the lines processed of a connection
are those of the bytes received, in their order.
-/
theorem handled_alone (maxThreads n : ℕ) (minThreads : ℤ) (events : List LoopEvent) :
    let s := run step (init maxThreads n minThreads) events
    s.faulted = false ∧
      (∀ t c, s.handling t = some c →
        (∃ x, s.conns c = some x ∧ s.interest x.fd = some ⟨c, false⟩) ∧
        c ∉ s.events.map Prod.fst ∧ s.submitting ≠ some c ∧ c ∉ s.queued ∧
        ∀ u, s.handling u = some c → u = t) ∧
      (Along step Solo (init maxThreads n minThreads) events → ∀ c x, s.conns c = some x →
        x.state.lines = (terminated '\n' x.state.received).map lineText) := by
  intro s
  obtain ⟨h, hframed⟩ := run_sound maxThreads n minThreads events
  refine ⟨h.fault, fun t c ht => ⟨?_, fun hc => ?_, fun hc => ?_, fun hc => ?_, fun u hu => ?_⟩,
    fun _ c x hx => (hframed c x hx).2.lines⟩
  · obtain ⟨fd, armed, hc, hi⟩ := h.held (h := .worker t) ht
    obtain ⟨x, hx, rfl⟩ := Option.map_eq_some_iff.mp hc
    refine ⟨x, hx, ?_⟩
    cases armed with
    | false => exact hi
    | true => cases h.sole c (.worker t) .kernel ht ⟨x.fd, hi⟩
  · cases h.sole c (.worker t) .events ht hc
  · cases h.sole c (.worker t) .submit ht hc
  · cases h.sole c (.worker t) .queue ht hc
  · cases h.sole c (.worker t) (.worker u) ht hu
    rfl

/--
An open connection is never out of everyone's hands, exactly if no
`epoll_add` failed and no submit of a closing connection did.
-/
theorem all_held_iff (maxThreads n : ℕ) (minThreads : ℤ) (events : List LoopEvent) :
    Along step (fun s e => ¬ s.Loses e) (init maxThreads n minThreads) events ↔
      ∀ es, es <+: events → (run step (init maxThreads n minThreads) es).AllHeld := by
  refine along_iff_prefixes (I := AllHeld) (J := fun s => s.Sound ∧ s.LinesFramed)
    (fun s e h => ?_) (fun s e h hs hl => ?_) (fun s e h hs hl => ?_) ⟨sound_init, linesFramed_init⟩
    fun c hc => absurd rfl hc
  · exact ⟨(step_leaves h.1 (fun hx => (h.2 _ _ hx).1) e).sound, linesFramed_step h.2 e⟩
  · exact ((step_leaves h.1 (fun hx => (h.2 _ _ hx).1) e).held hs).mpr hl
  · rw [(step_leaves h.1 (fun hx => (h.2 _ _ hx).1) e).held hs]
    exact hl

end EventLoop

end ChatServer
