import ChatServer.Connection.Ownership

/-! # What each event of the loop passes on

Every event of the loop leaves the connections where they are, or passes one
of them on to its next holder; `epoll_wait` passes several on, one by one.
-/

namespace ChatServer

open Library

namespace EventLoop

variable {s s' s'' : EventLoop} {c : ConnPtr} {fd : Fd} {dest : Option Holder} {lost : Prop}

/-- Every allocated connection has a holder. -/
def AllHeld (s : EventLoop) : Prop := ∀ c, s.fdOf c ≠ none → ∃ h, s.Holds h c

/-- The state after a step, which leaves a connection without a holder or does not. -/
structure Leaves (s s' : EventLoop) (lost : Prop) : Prop where
  sound : s'.Sound
  held : s.AllHeld → (s'.AllHeld ↔ ¬ lost)

theorem Leaves.congr (h : Leaves s s' lost) {lost' : Prop} (hlost : lost ↔ lost') :
    Leaves s s' lost' := ⟨h.sound, fun hs => (h.held hs).trans (not_congr hlost)⟩

theorem Leaves.trans (h₁ : Leaves s s' False) (h₂ : Leaves s' s'' lost) : Leaves s s'' lost :=
  ⟨h₂.sound, fun hs => h₂.held ((h₁.held hs).mpr not_false)⟩

theorem Leaves.refl (h : s.Sound) : Leaves s s False := ⟨h, fun hs => iff_of_true hs not_false⟩

/-- Only the connection that is passed on can be left without a holder. -/
theorem allHeld_pass (hpass : Passes s.Holds s'.Holds c dest)
    (hconns : ∀ d, d ≠ c → s'.fdOf d = s.fdOf d) (h : s.AllHeld) :
    s'.AllHeld ↔ ¬ (dest = none ∧ s'.fdOf c ≠ none) := by
  rw [not_and_not_right]
  constructor
  · intro hs hdest
    by_contra hc
    obtain ⟨g, hg⟩ := hs c hc
    rw [(hpass.passed g).mp hg] at hdest
    cases hdest
  · intro hc d hd
    rw [hpass.held_iff]
    by_cases hne : d = c
    · subst hne
      exact .inl ⟨rfl, fun hdest => hd (hc hdest)⟩
    · rw [hconns d hne] at hd
      exact .inr ⟨hne, h d hd⟩

theorem Leaves.of_pass (hpass : Passes s.Holds s'.Holds c dest) (ht : Touches s s' c fd)
    (h : s'.Sound) : Leaves s s' (dest = none ∧ s'.fdOf c ≠ none) :=
  ⟨h, allHeld_pass hpass ht.conns⟩

theorem Leaves.of_same (hfd : s'.fdOf = s.fdOf) (hholds : s'.Holds = s.Holds) (h : s'.Sound) :
    Leaves s s' False := by
  refine ⟨h, fun hs => iff_of_true ?_ not_false⟩
  rw [AllHeld, hfd, hholds]
  exact hs

theorem kernel_of_ne (h : s.Sound) (ht : Touches s s' c fd)
    (hentry : ∀ i, s'.interest fd = some i → i.conn = c) {d : ConnPtr} (hne : d ≠ c) :
    s'.Holds .kernel d ↔ s.Holds .kernel d := by
  refine exists_congr fun f => ?_
  rcases eq_or_ne f fd with rfl | hf
  · refine iff_of_false (fun hi => hne (hentry _ hi)) fun hi => hne (ht.alone (h.entry hi))
  · rw [ht.interest f hf]

theorem kernel_self (h : s.Sound) (ht : Touches s s' c fd) :
    s'.Holds .kernel c ↔ s'.interest fd = some ⟨c, true⟩ := by
  refine ⟨fun hk => ?_, fun hi => ⟨fd, hi⟩⟩
  obtain ⟨f, hi⟩ := hk
  rcases eq_or_ne f fd with rfl | hf
  · exact hi
  · rw [ht.interest f hf] at hi
    exact absurd (ht.own (h.entry hi)) hf

theorem kernel_armed (h : s.Sound) (ht : Touches s s' c fd)
    (hentry : s'.interest fd = some ⟨c, true⟩) (d : ConnPtr) :
    s'.Holds .kernel d ↔ d = c ∨ s.Holds .kernel d := by
  by_cases hne : d = c
  · subst hne
    simp [kernel_self h ht, hentry]
  · rw [or_iff_right hne]
    exact kernel_of_ne h ht (fun i hi => by rw [← Option.some.inj (hentry.symm.trans hi)]) hne

theorem kernel_disarmed (h : s.Sound) (ht : Touches s s' c fd)
    (hentry : ∀ i, s'.interest fd = some i → i = ⟨c, false⟩) (d : ConnPtr) :
    s'.Holds .kernel d ↔ d ≠ c ∧ s.Holds .kernel d := by
  by_cases hne : d = c
  · subst hne
    rw [kernel_self h ht]
    refine iff_of_false (fun hi => ?_) (by simp)
    cases hentry _ hi
  · rw [and_iff_right hne]
    exact kernel_of_ne h ht (fun i hi => by rw [hentry i hi]) hne

theorem put_fdOf (hc : s.fdOf c = some fd) (state : ConnState) :
    (s.put c ⟨fd, state⟩).fdOf = s.fdOf := by
  funext d
  by_cases hne : d = c
  · subst hne
    rw [hc]
    simp [fdOf, put]
  · simp [fdOf, put, hne]

theorem put_holds {k : Holder} (x : LoopConn) (hg : s.Holds k c) : (s.put c x).Holds k c := by
  cases k <;> exact hg

theorem put_leaves (h : s.Sound) (hc : s.fdOf c = some fd) (state : ConnState) :
    Leaves s (s.put c ⟨fd, state⟩) False :=
  .of_same (put_fdOf hc state) rfl
    (h.same h.owned rfl (put_fdOf hc state) rfl rfl rfl rfl rfl fun _ _ => h.busy)

theorem add_leaves (h : s.Sound) (hc : s.conns c = none) (hfd : s.opened fd = false)
    (added : Bool) : Leaves s (s.add fd c added) (added = false) := by
  have hnone : s.fdOf c = none := by simp [fdOf, hc]
  have hfresh : ∀ g, ¬ s.Holds g c := by
    intro g hg
    obtain ⟨f, armed, hf, -⟩ := h.held hg
    rw [hnone] at hf
    cases hf
  have ht : Touches s (s.add fd c added) c fd := {
    own := fun hf => by
      rw [hnone] at hf
      cases hf
    alone := fun hd => by
      rw [h.opened hd] at hfd
      cases hfd
    conns := fun d hne => by simp [fdOf, add, hne]
    opened := fun f hf => Function.update_of_ne hf _ _
    interest := fun f hf => Function.update_of_ne hf _ _ }
  have hnew : (s.add fd c added).fdOf c = some fd := by simp [fdOf, add]
  have hopen : (s.add fd c added).opened fd = true := Function.update_self _ _ _
  cases added with
  | true =>
    have hentry : (s.add fd c true).interest fd = some ⟨c, true⟩ := Function.update_self _ _ _
    have hpass : Passes s.Holds (s.add fd c true).Holds c (some .kernel) := by
      refine .give hfresh (kernel_armed h ht hentry) fun g hg d => ?_
      cases g with
      | kernel => exact absurd rfl hg
      | _ => exact Iff.rfl
    exact (Leaves.of_pass hpass ht (h.pass ht hpass h.owned h.fault (.inl ⟨hnew, hopen⟩)
      (.inr ⟨hnew, true, hentry⟩) h.events h.queue fun _ _ => h.busy)).congr (by simp)
  | false =>
    have hentry : (s.add fd c false).interest fd = none := Function.update_self _ _ _
    have hkernel := kernel_disarmed h ht fun i hi => by
      rw [hentry] at hi
      cases hi
    have hpass : Passes s.Holds (s.add fd c false).Holds c none := by
      refine .keep hfresh fun g d => ?_
      cases g with
      | kernel =>
        rw [hkernel, and_iff_right_of_imp]
        rintro hd rfl
        exact hfresh _ hd
      | _ => exact Iff.rfl
    exact (Leaves.of_pass hpass ht (h.pass ht hpass h.owned h.fault (.inl ⟨hnew, hopen⟩)
      (.inl ⟨hentry, rfl⟩) h.events h.queue fun _ _ => h.busy)).congr (by simp [hnew])

theorem fire_leaves (h : s.Sound) (hentry : s.interest fd = some ⟨c, true⟩) (hup : Bool) :
    Leaves s (s.fire fd c hup) False := by
  have hc : s.fdOf c = some fd := h.entry hentry
  have ht : Touches s (s.fire fd c hup) c fd :=
    h.touches hc (fun _ _ => rfl) (fun _ _ => rfl) fun f hf => Function.update_of_ne hf _ _
  have hheld : s.Holds .kernel c := ⟨fd, hentry⟩
  have hentry' : (s.fire fd c hup).interest fd = some ⟨c, false⟩ := Function.update_self _ _ _
  have hpass : Passes s.Holds (s.fire fd c hup).Holds c (some .events) := by
    refine h.sole.move hheld (by simp) ?_ ?_ ?_
    · exact kernel_disarmed h ht fun i hi => (Option.some.inj (hentry'.symm.trans hi)).symm
    · intro d
      simp [Holds, fire, or_comm]
    · intro g hg hg' d
      cases g with
      | kernel => exact absurd rfl hg
      | events => exact absurd rfl hg'
      | _ => exact Iff.rfl
  have hnew : c ∉ s.events.map Prod.fst := fun hm => by cases h.sole c .kernel .events hheld hm
  have hnodup : ((s.fire fd c hup).events.map Prod.fst).Nodup := by
    rw [fire, List.map_append]
    exact h.events.append (List.nodup_singleton c) (by simpa using hnew)
  exact (Leaves.of_pass hpass ht (h.pass ht hpass h.owned h.fault (.inl ⟨hc, h.opened hc⟩)
    (.inr ⟨hc, false, hentry'⟩) hnodup h.queue fun _ _ => h.busy)).congr (by simp)

theorem deliver_leaves (h : s.Sound) (ready : Fd × Bool) : Leaves s (s.deliver ready) False := by
  unfold deliver
  split
  · exact .refl h
  · rename_i entry hentry
    split_ifs with harmed
    · obtain ⟨c, armed⟩ := entry
      obtain rfl : armed = true := harmed
      exact fire_leaves h hentry ready.2
    · exact .refl h

theorem wait_leaves (h : s.Sound) (ready : List (Fd × Bool)) :
    Leaves s (ready.foldl deliver s) False := by
  induction ready generalizing s with
  | nil => exact .refl h
  | cons r ready ih => exact (deliver_leaves h r).trans (ih (deliver_leaves h r).sound)

/-- The holder of a connection lets go of it, with its entry disabled. -/
structure Drops (s s' : EventLoop) (g : Holder) (c : ConnPtr) : Prop where
  owned : ∃ ps, PoolState.Owned s'.pool ps
  fault : s'.faulted = false
  fdOf : s'.fdOf = s.fdOf
  opened : s'.opened = s.opened
  interest : s'.interest = s.interest
  events : (s'.events.map Prod.fst).Nodup
  queue : s'.queued.Nodup
  busy : ∀ {t d}, s'.handling t = some d → s'.AtJob t
  gives : ∀ d, s'.Holds g d ↔ d ≠ c ∧ s.Holds g d
  rest : ∀ k, k ≠ g → ∀ d, (s'.Holds k d ↔ s.Holds k d)

section Drops

variable {g : Holder} (h : s.Sound) (hc : s.fdOf c = some fd) (hg : s.Holds g c)
include h hc hg

theorem Drops.lost_leaves (hd : Drops s s' g c) : Leaves s s' True := by
  have ht : Touches s s' c fd :=
    h.touches hc (fun d _ => by rw [hd.fdOf]) (fun f _ => by rw [hd.opened])
      fun f _ => by rw [hd.interest]
  have hpass : Passes s.Holds s'.Holds c none := h.sole.drop hg hd.gives hd.rest
  have hc' : s'.fdOf c = some fd := by rw [hd.fdOf, hc]
  have hopen : s'.opened fd = true := by
    rw [hd.opened]
    exact h.opened hc
  have hentry : ∃ armed, s'.interest fd = some ⟨c, armed⟩ := by
    obtain ⟨f, armed, hf, hi⟩ := h.held hg
    obtain rfl : f = fd := Option.some.inj (hf.symm.trans hc)
    exact ⟨armed, by rw [hd.interest, hi]⟩
  exact (Leaves.of_pass hpass ht (h.pass ht hpass hd.owned hd.fault (.inl ⟨hc', hopen⟩)
    (.inr ⟨hc', hentry⟩) hd.events hd.queue fun _ _ => hd.busy)).congr (by simp [hc'])

theorem Drops.rearm_leaves (hd : Drops s s' g c) (hkernel : g ≠ .kernel) :
    Leaves s (s'.rearm c fd) False := by
  have hsome : s'.interest fd ≠ none := by
    obtain ⟨f, armed, hf, hi⟩ := h.held hg
    obtain rfl : f = fd := Option.some.inj (hf.symm.trans hc)
    rw [hd.interest, hi]
    exact Option.some_ne_none _
  have hrearm : s'.rearm c fd =
      { s' with interest := Function.update s'.interest fd (some ⟨c, true⟩) } := if_neg hsome
  have hentry : (s'.rearm c fd).interest fd = some ⟨c, true⟩ := by
    rw [hrearm]
    exact Function.update_self _ _ _
  have hfd : (s'.rearm c fd).fdOf = s.fdOf := by
    rw [hrearm]
    exact hd.fdOf
  have hopened : (s'.rearm c fd).opened = s.opened := by
    rw [hrearm]
    exact hd.opened
  have ht : Touches s (s'.rearm c fd) c fd := by
    refine h.touches hc (fun d _ => by rw [hfd]) (fun f _ => by rw [hopened]) fun f hf => ?_
    rw [hrearm, ← hd.interest]
    exact Function.update_of_ne hf _ _
  have hholds : ∀ k, k ≠ .kernel → ∀ d, ((s'.rearm c fd).Holds k d ↔ s'.Holds k d) := by
    intro k hk d
    rw [hrearm]
    cases k with
    | kernel => exact absurd rfl hk
    | _ => exact Iff.rfl
  have hpass : Passes s.Holds (s'.rearm c fd).Holds c (some .kernel) := by
    refine h.sole.move hg hkernel (fun d => ?_) (kernel_armed h ht hentry) fun k hk hk' d => ?_
    · rw [hholds g hkernel, hd.gives]
    · rw [hholds k hk', hd.rest k hk]
  have hc' : (s'.rearm c fd).fdOf c = some fd := by rw [hfd, hc]
  have hopen : (s'.rearm c fd).opened fd = true := by
    rw [hopened]
    exact h.opened hc
  refine (Leaves.of_pass hpass ht (h.pass ht hpass ?_ ?_ (.inl ⟨hc', hopen⟩)
    (.inr ⟨hc', true, hentry⟩) ?_ ?_ ?_)).congr (by simp)
  all_goals rw [hrearm]
  · exact hd.owned
  · exact hd.fault
  · exact hd.events
  · exact hd.queue
  · exact fun _ _ => hd.busy

theorem Drops.free_leaves (hd : Drops s s' g c) (hkernel : g ≠ .kernel) :
    Leaves s (s'.free c fd) False := by
  have hnone : (s'.free c fd).fdOf c = none := by simp [EventLoop.fdOf, free]
  have hentry : (s'.free c fd).interest fd = none := Function.update_self _ _ _
  have ht : Touches s (s'.free c fd) c fd := by
    refine h.touches hc (fun d hne => ?_) (fun f hf => ?_) fun f hf => ?_
    · rw [← hd.fdOf]
      simp [EventLoop.fdOf, free, hne]
    · rw [← hd.opened]
      exact Function.update_of_ne hf _ _
    · rw [← hd.interest]
      exact Function.update_of_ne hf _ _
  have hholds : ∀ k, k ≠ .kernel → ∀ d, ((s'.free c fd).Holds k d ↔ s'.Holds k d) := by
    intro k hk d
    cases k with
    | kernel => exact absurd rfl hk
    | _ => exact Iff.rfl
  have hkernel' : ∀ d, (s'.free c fd).Holds .kernel d ↔ s.Holds .kernel d := by
    intro d
    have hnot : ∀ i, (s'.free c fd).interest fd = some i → i = ⟨c, false⟩ := by
      intro i hi
      rw [hentry] at hi
      cases hi
    rw [kernel_disarmed h ht hnot, and_iff_right_of_imp]
    rintro hk rfl
    exact hkernel (h.sole _ _ _ hg hk)
  have hpass : Passes s.Holds (s'.free c fd).Holds c none := by
    refine h.sole.drop hg (fun d => ?_) fun k hk d => ?_
    · rw [hholds g hkernel, hd.gives]
    · by_cases hk' : k = .kernel
      · rw [hk', hkernel']
      · rw [hholds k hk', hd.rest k hk]
  exact (Leaves.of_pass hpass ht (h.pass ht hpass hd.owned hd.fault (.inr hnone)
    (.inl ⟨hentry, rfl⟩) hd.events hd.queue fun _ _ => hd.busy)).congr (by simp [hnone])

end Drops

end EventLoop

end ChatServer
