import Mathlib.Data.List.Nodup
import Mathlib.Logic.Function.Basic
import ChatServer.Library.Run

/-! # Who is connected, logged in, and in which room

The purpose of the registry, without its storage: connections, the clients
logged in on them, rooms, and the two sides of membership, which are the
member list of a room and the location of a client. The acts are what
commands may do to it, each with the guard under which it is done.
-/

namespace ChatServer

open Library

/-- Connections, clients and rooms, over arbitrary names and addresses. -/
structure Roster (R C N F : Type*) where
  rooms : List R
  clients : List C
  conns : F → Option (Option C)
  members : R → List C
  capacity : R → ℕ
  admin : R → Option C
  title : R → N
  location : C → Option R
  name : C → N
  address : C → F

namespace Roster

/-- `sit` puts a client's location into a room that could not take it as a member. -/
inductive Act (R C N F : Type*) where
  | connect (fd : F)
  | hangup (fd : F)
  | login (fd : F) (c : C) (n : N)
  | logout (fd : F) (c : C)
  | create (r : R) (c : C) (n : N) (cap : ℕ)
  | close (r : R)
  | enter (c : C) (r : R) (n : N)
  | sit (c : C) (r : R) (n : N)
  | leave (c : C) (r : R)
  | promote (r : R) (c : C)

variable {R C N F : Type*}

/-- Some connection is logged in as the client. -/
def Online (s : Roster R C N F) (c : C) : Prop := ∃ fd, s.conns fd = some (some c)

/-- The guard of an act. -/
def Enabled (s : Roster R C N F) : Act R C N F → Prop
  | .connect fd => s.conns fd = none
  | .hangup fd => s.conns fd = some none
  | .login fd c _ => s.conns fd = some none ∧ c ∉ s.clients
  | .logout fd c => s.conns fd = some (some c) ∧ s.location c = none
  | .create r c n _ => r ∉ s.rooms ∧ (∀ r' ∈ s.rooms, s.title r' ≠ n) ∧ s.Online c
  | .close r => r ∈ s.rooms ∧ s.members r = []
  | .enter c r n => r ∈ s.rooms ∧ s.title r = n ∧ s.Online c ∧ s.location c = none ∧
      (s.members r).length < s.capacity r
  | .sit c r n => r ∈ s.rooms ∧ s.title r = n ∧ s.Online c ∧ s.location c = none ∧
      s.capacity r ≤ (s.members r).length
  | .leave c r => s.location c = some r
  | .promote r c => c ∈ s.clients ∧ s.location c = some r

section Apply

variable [DecidableEq R] [DecidableEq C] [DecidableEq F]

def apply (s : Roster R C N F) : Act R C N F → Roster R C N F
  | .connect fd => { s with conns := Function.update s.conns fd (some none) }
  | .hangup fd => { s with conns := Function.update s.conns fd none }
  | .login fd c n =>
    { s with
      clients := s.clients ++ [c]
      conns := Function.update s.conns fd (some (some c))
      location := Function.update s.location c none
      name := Function.update s.name c n
      address := Function.update s.address c fd }
  | .logout fd c =>
    { s with
      clients := s.clients.erase c
      conns := Function.update s.conns fd (some none) }
  | .create r c n cap =>
    { s with
      rooms := s.rooms ++ [r]
      members := Function.update s.members r []
      capacity := Function.update s.capacity r cap
      admin := Function.update s.admin r (some c)
      title := Function.update s.title r n }
  | .close r => { s with rooms := s.rooms.erase r }
  | .enter c r _ =>
    { s with
      members := Function.update s.members r (s.members r ++ [c])
      location := Function.update s.location c (some r) }
  | .sit c r _ => { s with location := Function.update s.location c (some r) }
  | .leave c r =>
    { s with
      members := Function.update s.members r ((s.members r).erase c)
      location := Function.update s.location c none }
  | .promote r c => { s with admin := Function.update s.admin r (some c) }

/-- Enabled acts with labels that a condition allows lead from one roster to another. -/
def Leads (P : Act R C N F → Prop) (s t : Roster R C N F) : Prop :=
  Execution apply (fun s a => P a ∧ s.Enabled a) s t

variable {s t u : Roster R C N F} {a : Act R C N F} {P Q : Act R C N F → Prop}

theorem Leads.of_eq (h : t = s) : Leads P s t := h ▸ Execution.refl s

theorem Leads.act (h : Leads P s t) (hP : P a) (ha : t.Enabled a) (hu : u = t.apply a) :
    Leads P s u := hu ▸ Execution.tail h ⟨hP, ha⟩

theorem Leads.trans (h₁ : Leads P s t) (h₂ : Leads P t u) : Leads P s u := Execution.trans h₁ h₂

theorem Leads.mono (h : Leads P s t) (hPQ : ∀ a, P a → Q a) : Leads Q s t :=
  Execution.mono (fun _ a ha => ⟨hPQ a ha.1, ha.2⟩) h

end Apply

/-- The roster before the first connection. -/
structure Start (s : Roster R C N F) : Prop where
  rooms : s.rooms = []
  clients : s.clients = []
  conns : ∀ fd, s.conns fd = none

/-- Connections and clients are linked one to one. -/
structure Linked (s : Roster R C N F) : Prop where
  nodup : s.clients.Nodup
  mem_of_conn : ∀ {fd c}, s.conns fd = some (some c) → c ∈ s.clients ∧ s.address c = fd
  conn_of_mem : ∀ {c}, c ∈ s.clients → s.conns (s.address c) = some (some c)

/-- A member of a live room is a client whose location is that room. -/
structure Seated (s : Roster R C N F) : Prop where
  rooms_nodup : s.rooms.Nodup
  titles : ∀ {r r'}, r ∈ s.rooms → r' ∈ s.rooms → s.title r = s.title r' → r = r'
  members_nodup : ∀ {r}, r ∈ s.rooms → (s.members r).Nodup
  of_member : ∀ {c r}, r ∈ s.rooms → c ∈ s.members r → c ∈ s.clients ∧ s.location c = some r

theorem Start.linked {s : Roster R C N F} (h : s.Start) : s.Linked where
  nodup := by rw [h.clients]; exact List.nodup_nil
  mem_of_conn := fun hc => by simp [h.conns] at hc
  conn_of_mem := fun hc => by simp [h.clients] at hc

theorem Start.seated {s : Roster R C N F} (h : s.Start) : s.Seated where
  rooms_nodup := by rw [h.rooms]; exact List.nodup_nil
  titles := fun hr => by simp [h.rooms] at hr
  members_nodup := fun hr => by simp [h.rooms] at hr
  of_member := fun hr => by simp [h.rooms] at hr

theorem Linked.mem_of_online {s : Roster R C N F} (h : s.Linked) {c : C} (hc : s.Online c) :
    c ∈ s.clients := by
  obtain ⟨fd, hfd⟩ := hc
  exact (h.mem_of_conn hfd).1

section Invariants

variable [DecidableEq R] [DecidableEq C] [DecidableEq F] {s t : Roster R C N F}
  {a : Act R C N F} {P : Act R C N F → Prop}

omit [DecidableEq R] [DecidableEq C] in
theorem Linked.setConn (h : s.Linked) {fd : F} {conn : Option (Option C)}
    (hold : ∀ c, s.conns fd ≠ some (some c)) (hnew : ∀ c, conn ≠ some (some c)) :
    { s with conns := Function.update s.conns fd conn }.Linked := by
  constructor
  · exact h.nodup
  · intro fd' c hc
    have hne : fd' ≠ fd := by
      rintro rfl
      exact hnew c (by simpa using hc)
    exact h.mem_of_conn (by simpa [hne] using hc)
  · intro c hc
    have hc' := h.conn_of_mem hc
    have hne : s.address c ≠ fd := by
      rintro rfl
      exact hold c hc'
    exact (Function.update_of_ne hne _ _).trans hc'

theorem Linked.apply (h : s.Linked) (ha : s.Enabled a) : (s.apply a).Linked := by
  cases a with
  | connect fd =>
    have hnone : s.conns fd = none := ha
    exact h.setConn (by simp [hnone]) (by simp)
  | hangup fd =>
    have hfree : s.conns fd = some none := ha
    exact h.setConn (by simp [hfree]) (by simp)
  | login fd c n =>
    obtain ⟨hfd, hnew⟩ := ha
    refine ⟨?_, fun {fd' c'} hc => ?_, fun {c'} hc => ?_⟩
    · exact List.nodup_append.mpr ⟨h.nodup, by simp, by
        rintro x hx y hy rfl; simp only [List.mem_singleton] at hy; exact hnew (hy ▸ hx)⟩
    · rcases eq_or_ne fd' fd with rfl | hne
      · obtain rfl : c = c' := by simpa [Roster.apply] using hc
        simp [Roster.apply]
      · have hc' := h.mem_of_conn (by simpa [Roster.apply, hne] using hc)
        have hcc : c' ≠ c := fun he => hnew (he ▸ hc'.1)
        simpa [Roster.apply, hcc] using hc'
    · rcases List.mem_append.mp hc with hc | hc
      · have hcc : c' ≠ c := fun he => hnew (he ▸ hc)
        have hc' := h.conn_of_mem hc
        have hne : s.address c' ≠ fd := by rintro he; rw [he, hfd] at hc'; cases hc'
        simpa [Roster.apply, hcc, hne] using hc'
      · obtain rfl := List.mem_singleton.mp hc
        simp [Roster.apply]
  | logout fd c =>
    obtain ⟨hfd, -⟩ := ha
    refine ⟨h.nodup.erase c, fun {fd' c'} hc => ?_, fun {c'} hc => ?_⟩
    · have hne : fd' ≠ fd := by rintro rfl; simp [Roster.apply] at hc
      have hc' := h.mem_of_conn (by simpa [Roster.apply, hne] using hc)
      have hcc : c' ≠ c := by
        rintro rfl
        exact hne (hc'.2.symm.trans (h.mem_of_conn hfd).2)
      exact ⟨(List.mem_erase_of_ne hcc).mpr hc'.1, hc'.2⟩
    · obtain ⟨hcc, hmem⟩ := h.nodup.mem_erase_iff.mp hc
      have hc' := h.conn_of_mem hmem
      have hne : s.address c' ≠ fd := by
        rintro he
        rw [he, hfd] at hc'
        exact hcc (Option.some.inj (Option.some.inj hc')).symm
      simpa [Roster.apply, hne] using hc'
  | create r c n cap => exact ⟨h.nodup, h.mem_of_conn, h.conn_of_mem⟩
  | close r => exact ⟨h.nodup, h.mem_of_conn, h.conn_of_mem⟩
  | enter c r n => exact ⟨h.nodup, h.mem_of_conn, h.conn_of_mem⟩
  | sit c r n => exact ⟨h.nodup, h.mem_of_conn, h.conn_of_mem⟩
  | leave c r => exact ⟨h.nodup, h.mem_of_conn, h.conn_of_mem⟩
  | promote r c => exact ⟨h.nodup, h.mem_of_conn, h.conn_of_mem⟩

omit [DecidableEq R] [DecidableEq C] [DecidableEq F] in
theorem Seated.not_mem_of_location (h : s.Seated) {c : C} {r : R} (hr : r ∈ s.rooms)
    (hc : s.location c ≠ some r) : c ∉ s.members r :=
  fun hm => hc (h.of_member hr hm).2

theorem Seated.create (h : s.Seated) {r : R} {c : C} {n : N} {cap : ℕ}
    (ha : s.Enabled (.create r c n cap)) : (s.apply (.create r c n cap)).Seated := by
  obtain ⟨hnew, htitle, -⟩ := ha
  have hne : ∀ {r'}, r' ∈ s.rooms → r' ≠ r := fun hr he => hnew (he ▸ hr)
  constructor
  · exact List.nodup_append.mpr ⟨h.rooms_nodup, by simp, by
      rintro x hx y hy rfl; exact hne hx (List.mem_singleton.mp hy)⟩
  · intro r₁ r₂ h₁ h₂ he
    rcases List.mem_append.mp h₁ with g₁ | g₁ <;> rcases List.mem_append.mp h₂ with g₂ | g₂
    · exact h.titles g₁ g₂ (by simpa [Roster.apply, hne g₁, hne g₂] using he)
    · obtain rfl := List.mem_singleton.mp g₂
      exact absurd (by simpa [Roster.apply, hne g₁] using he) (htitle r₁ g₁)
    · obtain rfl := List.mem_singleton.mp g₁
      exact absurd (by simpa [Roster.apply, hne g₂] using he.symm) (htitle r₂ g₂)
    · rw [List.mem_singleton.mp g₁, List.mem_singleton.mp g₂]
  · intro r' hr'
    rcases List.mem_append.mp hr' with hr' | hr'
    · simpa [Roster.apply, hne hr'] using h.members_nodup hr'
    · obtain rfl := List.mem_singleton.mp hr'
      simp [Roster.apply]
  · intro c' r' hr' hc'
    rcases List.mem_append.mp hr' with hr' | hr'
    · exact h.of_member hr' (by simpa [Roster.apply, hne hr'] using hc')
    · obtain rfl := List.mem_singleton.mp hr'
      simp [Roster.apply] at hc'

theorem Seated.enter (h : s.Seated) (hl : s.Linked) {c : C} {r : R} {n : N}
    (ha : s.Enabled (.enter c r n)) : (s.apply (.enter c r n)).Seated := by
  obtain ⟨hr, -, hon, hloc, -⟩ := ha
  have hout : ∀ {r'}, r' ∈ s.rooms → c ∉ s.members r' := fun hr' =>
    h.not_mem_of_location hr' (by simp [hloc])
  refine ⟨h.rooms_nodup, h.titles, fun {r'} hr' => ?_, fun {c' r'} hr' hc' => ?_⟩
  · rcases eq_or_ne r' r with rfl | hne
    · simp only [Roster.apply, Function.update_self]
      exact List.nodup_append.mpr ⟨h.members_nodup hr', by simp, by
        rintro x hx y hy rfl; exact hout hr' (List.mem_singleton.mp hy ▸ hx)⟩
    · simpa [Roster.apply, hne] using h.members_nodup hr'
  · rcases eq_or_ne c' c with rfl | hcc
    · rcases eq_or_ne r' r with rfl | hne
      · exact ⟨hl.mem_of_online hon, by simp [Roster.apply]⟩
      · exact absurd (by simpa [Roster.apply, hne] using hc') (hout hr')
    · have hm : c' ∈ s.members r' := by
        rcases eq_or_ne r' r with rfl | hne
        · simpa [Roster.apply, hcc] using hc'
        · simpa [Roster.apply, hne] using hc'
      simpa [Roster.apply, hcc] using h.of_member hr' hm

theorem Seated.leave (h : s.Seated) {c : C} {r : R} (ha : s.Enabled (.leave c r)) :
    (s.apply (.leave c r)).Seated := by
  refine ⟨h.rooms_nodup, h.titles, fun {r'} hr' => ?_, fun {c' r'} hr' hc' => ?_⟩
  · rcases eq_or_ne r' r with rfl | hne
    · simpa [Roster.apply] using (h.members_nodup hr').erase c
    · simpa [Roster.apply, hne] using h.members_nodup hr'
  · rcases eq_or_ne r' r with rfl | hne
    · obtain ⟨hcc, hm⟩ := (h.members_nodup hr').mem_erase_iff.mp
        (by simpa [Roster.apply] using hc')
      simpa [Roster.apply, hcc] using h.of_member hr' hm
    · have hm := h.of_member hr' (by simpa [Roster.apply, hne] using hc')
      have hcc : c' ≠ c := by
        rintro rfl
        exact hne (Option.some.inj (hm.2.symm.trans ha))
      simpa [Roster.apply, hcc] using hm

theorem Seated.apply (h : s.Seated) (hl : s.Linked) (ha : s.Enabled a) : (s.apply a).Seated := by
  cases a with
  | connect fd => exact ⟨h.rooms_nodup, h.titles, h.members_nodup, h.of_member⟩
  | hangup fd => exact ⟨h.rooms_nodup, h.titles, h.members_nodup, h.of_member⟩
  | login fd c n =>
    refine ⟨h.rooms_nodup, h.titles, h.members_nodup, fun {c' r} hr hc => ?_⟩
    have hc' := h.of_member hr hc
    have hne : c' ≠ c := fun he => ha.2 (he ▸ hc'.1)
    exact ⟨List.mem_append_left _ hc'.1, by simpa [Roster.apply, hne] using hc'.2⟩
  | logout fd c =>
    refine ⟨h.rooms_nodup, h.titles, h.members_nodup, fun {c' r} hr hc => ?_⟩
    have hc' := h.of_member hr hc
    have hne : c' ≠ c := by rintro rfl; rw [ha.2] at hc'; cases hc'.2
    exact ⟨(List.mem_erase_of_ne hne).mpr hc'.1, hc'.2⟩
  | create r c n cap => exact h.create ha
  | close r =>
    have hsub : ∀ {r'}, r' ∈ s.rooms.erase r → r' ∈ s.rooms := fun hr => List.mem_of_mem_erase hr
    exact ⟨h.rooms_nodup.erase r, fun h₁ h₂ => h.titles (hsub h₁) (hsub h₂),
      fun hr => h.members_nodup (hsub hr), fun hr => h.of_member (hsub hr)⟩
  | enter c r n => exact h.enter hl ha
  | sit c r n =>
    obtain ⟨-, -, -, hloc, -⟩ := ha
    refine ⟨h.rooms_nodup, h.titles, h.members_nodup, fun {c' r'} hr' hc' => ?_⟩
    have hm := h.of_member hr' hc'
    have hcc : c' ≠ c := by rintro rfl; rw [hloc] at hm; cases hm.2
    exact ⟨hm.1, by simpa [Roster.apply, hcc] using hm.2⟩
  | leave c r => exact h.leave ha
  | promote r c => exact ⟨h.rooms_nodup, h.titles, h.members_nodup, h.of_member⟩

/-- A client whose location is a room is a member of that live room. -/
def Settled (s : Roster R C N F) : Prop :=
  ∀ c ∈ s.clients, ∀ r, s.location c = some r → r ∈ s.rooms ∧ c ∈ s.members r

omit [DecidableEq R] [DecidableEq C] [DecidableEq F] in
theorem Start.settled (h : s.Start) : s.Settled := by
  intro c hc
  simp [h.clients] at hc

theorem Settled.apply (h : s.Settled) (ha : s.Enabled a)
    (hsit : ∀ c r n, a ≠ .sit c r n) : (s.apply a).Settled := by
  cases a with
  | connect fd => exact h
  | hangup fd => exact h
  | login fd c n =>
    intro c' hc' r hr
    rcases eq_or_ne c' c with rfl | hcc
    · simp [Roster.apply] at hr
    · exact h c' (by simpa [Roster.apply, hcc] using hc') r (by simpa [Roster.apply, hcc] using hr)
  | logout fd c => exact fun c' hc' r hr => h c' (List.mem_of_mem_erase hc') r hr
  | create r c n cap =>
    intro c' hc' r' hr'
    obtain ⟨hr', hm⟩ := h c' hc' r' hr'
    have hne : r' ≠ r := fun he => ha.1 (he ▸ hr')
    exact ⟨List.mem_append_left _ hr', by simpa [Roster.apply, hne] using hm⟩
  | close r =>
    intro c' hc' r' hr'
    obtain ⟨hr', hm⟩ := h c' hc' r' hr'
    have hne : r' ≠ r := by rintro rfl; rw [ha.2] at hm; cases hm
    exact ⟨(List.mem_erase_of_ne hne).mpr hr', hm⟩
  | enter c r n =>
    intro c' hc' r' hr'
    rcases eq_or_ne c' c with rfl | hcc
    · obtain rfl : r = r' := by simpa [Roster.apply] using hr'
      exact ⟨ha.1, by simp [Roster.apply]⟩
    · obtain ⟨hr₁, hm⟩ := h c' hc' r' (by simpa [Roster.apply, hcc] using hr')
      refine ⟨hr₁, ?_⟩
      rcases eq_or_ne r' r with rfl | hne
      · simp [Roster.apply, hm]
      · simpa [Roster.apply, hne] using hm
  | sit c r n => exact absurd rfl (hsit c r n)
  | leave c r =>
    intro c' hc' r' hr'
    rcases eq_or_ne c' c with rfl | hcc
    · simp [Roster.apply] at hr'
    · obtain ⟨hr₁, hm⟩ := h c' hc' r' (by simpa [Roster.apply, hcc] using hr')
      refine ⟨hr₁, ?_⟩
      rcases eq_or_ne r' r with rfl | hne
      · simpa [Roster.apply] using (List.mem_erase_of_ne hcc).mpr hm
      · simpa [Roster.apply, hne] using hm
  | promote r c => exact h

/-- The invariants that hold whatever acts are taken. -/
structure Sound (s : Roster R C N F) : Prop where
  linked : s.Linked
  seated : s.Seated

omit [DecidableEq R] [DecidableEq C] [DecidableEq F] in
theorem Start.sound (h : s.Start) : s.Sound := ⟨h.linked, h.seated⟩

theorem Sound.apply (h : s.Sound) (ha : s.Enabled a) : (s.apply a).Sound :=
  ⟨h.linked.apply ha, h.seated.apply h.linked ha⟩

theorem Leads.sound (hp : Leads P s t) (h : s.Sound) : t.Sound :=
  hp.invariant (fun _ _ hs ha => hs.apply ha.2) h

theorem apply_name (ha : ∀ fd c n, a ≠ .login fd c n) : (s.apply a).name = s.name := by
  cases a with
  | login fd c n => exact absurd rfl (ha fd c n)
  | _ => rfl

theorem Leads.name_eq (hp : Leads P s t) (hP : ∀ fd c n, ¬ P (.login fd c n)) :
    t.name = s.name := by
  refine hp.invariant (I := fun u => u.name = s.name) ?_ rfl
  rintro u a hu ⟨hPa, -⟩
  rw [apply_name, hu]
  rintro fd c n rfl
  exact hP fd c n hPa

/-- A member of a live room entered it on the way, or was a member of the same name before. -/
theorem Leads.member (hp : Leads P s t) (hs : s.Sound) {r : R} {c : C} (hr : r ∈ t.rooms)
    (hc : c ∈ t.members r) : P (.enter c r (t.title r)) ∨
      (r ∈ s.rooms ∧ c ∈ s.members r ∧ t.name c = s.name c ∧ t.title r = s.title r) := by
  let I (u : Roster R C N F) : Prop := u.Sound ∧ ∀ r ∈ u.rooms, ∀ c ∈ u.members r,
    P (.enter c r (u.title r)) ∨
      (r ∈ s.rooms ∧ c ∈ s.members r ∧ u.name c = s.name c ∧ u.title r = s.title r)
  have hstep : ∀ u a, I u → P a ∧ u.Enabled a → I (u.apply a) := by
    rintro u a ⟨hu, hi⟩ ⟨hPa, ha⟩
    refine ⟨hu.apply ha, ?_⟩
    cases a with
    | connect fd => exact hi
    | hangup fd => exact hi
    | login fd c n =>
      intro r hr c' hc'
      have hcc : c' ≠ c := fun he => ha.2 (he ▸ (hu.seated.of_member hr hc').1)
      simpa [Roster.apply, hcc] using hi r hr c' hc'
    | logout fd c => exact hi
    | create r c n cap =>
      intro r' hr' c' hc'
      rcases List.mem_append.mp hr' with hr' | hr'
      · have hne : r' ≠ r := fun he => ha.1 (he ▸ hr')
        simpa [Roster.apply, hne] using hi r' hr' c' (by simpa [Roster.apply, hne] using hc')
      · obtain rfl := List.mem_singleton.mp hr'
        simp [Roster.apply] at hc'
    | close r => exact fun r' hr' => hi r' (List.mem_of_mem_erase hr')
    | enter c r n =>
      intro r' hr' c' hc'
      rcases eq_or_ne r' r with rfl | hne
      · rcases List.mem_append.mp (by simpa [Roster.apply] using hc' :
          c' ∈ u.members r' ++ [c]) with hc' | hc'
        · exact hi r' hr' c' hc'
        · obtain rfl := List.mem_singleton.mp hc'
          have htitle : u.title r' = n := ha.2.1
          exact .inl (htitle ▸ hPa)
      · exact hi r' hr' c' (by simpa [Roster.apply, hne] using hc')
    | sit c r n => exact hi
    | leave c r =>
      intro r' hr' c' hc'
      rcases eq_or_ne r' r with rfl | hne
      · exact hi r' hr' c' (List.mem_of_mem_erase (by simpa [Roster.apply] using hc'))
      · exact hi r' hr' c' (by simpa [Roster.apply, hne] using hc')
    | promote r c => exact hi
  exact (hp.invariant hstep ⟨hs, fun r hr c hc => .inr ⟨hr, hc, rfl, rfl⟩⟩).2 r hr c hc

theorem mem_apply_rooms (ha : ∀ r, a ≠ .close r) {r : R} (hr : r ∈ s.rooms) :
    r ∈ (s.apply a).rooms := by
  cases a with
  | create r' c n cap => exact List.mem_append_left _ hr
  | close r' => exact absurd rfl (ha r')
  | _ => exact hr

theorem Leads.mem_rooms (hp : Leads P s t) {r : R} (hr : r ∈ t.rooms) :
    r ∈ s.rooms ∨ ∃ c n cap, P (.create r c n cap) := by
  refine hp.invariant
    (I := fun u => r ∈ u.rooms → r ∈ s.rooms ∨ ∃ c n cap, P (.create r c n cap)) ?_ .inl hr
  rintro u a hu ⟨hPa, -⟩ hr
  cases a with
  | create r' c n cap =>
    rcases List.mem_append.mp hr with hr | hr
    · exact hu hr
    · obtain rfl := List.mem_singleton.mp hr
      exact .inr ⟨c, n, cap, hPa⟩
  | close r' => exact hu (List.mem_of_mem_erase hr)
  | _ => exact hu hr

theorem apply_title (ha : ∀ r c n cap, a ≠ .create r c n cap) : (s.apply a).title = s.title := by
  cases a with
  | create r c n cap => exact absurd rfl (ha r c n cap)
  | _ => rfl

theorem Leads.title_eq (hp : Leads P s t)
    (hP : (∀ r, ¬ P (.close r)) ∨ ∀ r c n cap, ¬ P (.create r c n cap)) {r : R}
    (hr : r ∈ s.rooms) : t.title r = s.title r := by
  rcases hP with hclose | hcreate
  · refine (hp.invariant (I := fun u => r ∈ u.rooms ∧ u.title r = s.title r) ?_ ⟨hr, rfl⟩).2
    rintro u a ⟨hu, htitle⟩ ⟨hPa, ha⟩
    cases a with
    | create r' c n cap =>
      have hne : r ≠ r' := fun he => ha.1 (he ▸ hu)
      exact ⟨List.mem_append_left _ hu, by simpa [Roster.apply, hne] using htitle⟩
    | close r' => exact absurd hPa (hclose r')
    | _ => exact ⟨hu, htitle⟩
  · refine congrFun (hp.invariant (I := fun u => u.title = s.title) ?_ rfl) r
    rintro u a hu ⟨hPa, -⟩
    rw [apply_title, hu]
    rintro r c n cap rfl
    exact hcreate r c n cap hPa

/-- No member of a live room is excluded from its title by name. -/
def Clear (B : N → N → Prop) (s : Roster R C N F) : Prop :=
  ∀ r ∈ s.rooms, ∀ c ∈ s.members r, ¬ B (s.title r) (s.name c)

/-- Rooms stay clear if no excluded client enters, and logins do not rename those who enter. -/
theorem Leads.clear {B : N → N → Prop} (hp : Leads P s t)
    (hP : ∀ c r n, P (.enter c r n) → (∀ fd c' n', ¬ P (.login fd c' n')) ∧ ¬ B n (s.name c))
    (hs : s.Sound) (h : s.Clear B) : t.Clear B := by
  intro r hr c hc
  rcases hp.member hs hr hc with henter | ⟨hr', hc', hname, htitle⟩
  · obtain ⟨hlogin, hB⟩ := hP c r _ henter
    rwa [hp.name_eq hlogin]
  · rw [hname, htitle]
    exact h r hr' c hc'

theorem Leads.settled (hp : Leads P s t) (hP : ∀ c r n, ¬ P (.sit c r n)) (hs : s.Sound)
    (h : s.Settled) : t.Settled := by
  refine (hp.invariant (I := fun s => s.Sound ∧ s.Settled) ?_ ⟨hs, h⟩).2
  rintro s a ⟨hs, h⟩ ⟨hPa, ha⟩
  exact ⟨hs.apply ha, h.apply ha (by rintro c r n rfl; exact hP c r n hPa)⟩

end Invariants

end Roster

end ChatServer
