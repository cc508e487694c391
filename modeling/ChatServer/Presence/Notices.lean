import ChatServer.Library.Feed
import ChatServer.Membership.Names
import ChatServer.Replies.Status

/-! # Presence notices

A reader of the lines on a connection recognises the notices about a room by
their first word, their action and the name of the room at their end. What is
left between these is the user.
-/

namespace ChatServer

open Library World Roster

/-- The user of a notice about a room. -/
def userIn (action roomName bytes : Text) : Option Text :=
  (bytes.dropPrefix? (replyNotice ++ [' '])).bind
    (·.dropSuffix? (' ' :: action ++ ' ' :: roomName ++ ['\n']))

/-- What a line says about who is in a room. -/
def presenceOf (roomName bytes : Text) : Option (Change Text) :=
  ((userIn okJoined roomName bytes).map .joined).or
    (((userIn okLeft roomName bytes).map .gone).or ((userIn okKicked roomName bytes).map .gone))

/-- What the lines sent to a descriptor say about who is in a room. -/
def heard (fd : Fd) (roomName : Text) (outs : List Output) : List (Change Text) :=
  (outs.filter (·.fd = fd)).filterMap (presenceOf roomName ·.line.bytes)

/-- What a notice of an action says. -/
def changeOf (action user : Text) : Option (Change Text) :=
  if action = okJoined then some (.joined user)
  else if action = okLeft ∨ action = okKicked then some (.gone user)
  else none

variable {env : Env} {w w' : World} {conn : Conn} {c : ClientPtr} {r : RoomPtr} {fd : Fd}
  {user action action' roomName bytes : Text} {outs outs' : List Output} {line : Line}
  {reg : Registry} {conns : Conns}

theorem last_word_inj {s t : Text} (ha : ' ' ∉ action) (ha' : ' ' ∉ action')
    (h : s ++ ' ' :: action = t ++ ' ' :: action') : action = action' := by
  have hword {u a : Text} (ha : ' ' ∉ a) :
      (u ++ ' ' :: a).reverse.takeWhile (· ≠ ' ') = a.reverse := by
    have hall : ∀ x ∈ a.reverse, decide (x ≠ ' ') = true := by
      intro x hx
      simp only [List.mem_reverse] at hx
      exact decide_eq_true fun he => ha (he ▸ hx)
    rw [List.reverse_append, List.reverse_cons, List.append_assoc,
      List.takeWhile_append_of_pos hall]
    simp
  have hrev := congrArg (fun u => u.reverse.takeWhile (· ≠ ' ')) h
  simp only [hword ha, hword ha'] at hrev
  exact List.reverse_injective hrev

theorem formatNotice_eq (huser : user.length < 32) (haction : action.length < 32)
    (hroom : roomName.length < 32) : formatNotice maxLineLen user action roomName =
      (replyNotice ++ [' ']) ++ (user ++ (' ' :: action ++ ' ' :: roomName ++ ['\n'])) := by
  have hline : lineOf [replyNotice, user, action, roomName] =
      (replyNotice ++ [' ']) ++ (user ++ (' ' :: action ++ ' ' :: roomName ++ ['\n'])) := by
    simp [lineOf, List.intercalate_cons_cons, List.intercalate_singleton]
  rw [formatNotice, hline, snprintf, List.take_of_length_le]
  simp only [maxLineLen, replyNotice, List.length_append, List.length_cons, List.length_nil,
    show "NOTICE".toList.length = 6 from rfl]
  omega

theorem userIn_formatNotice (huser : user.length < 32) (haction : action.length < 32)
    (hroom : roomName.length < 32) (hspace : ' ' ∉ action) (hspace' : ' ' ∉ action') :
    userIn action' roomName (formatNotice maxLineLen user action roomName) =
      if action = action' then some user else none := by
  rw [formatNotice_eq huser haction hroom, userIn,
    List.dropPrefix?_append_of_beq _ (beq_self_eq_true _), Option.bind_some]
  split_ifs with heq
  · subst heq
    exact List.dropSuffix?_eq_some_iff.mpr ⟨_, rfl, beq_self_eq_true _⟩
  · rw [Option.eq_none_iff_forall_ne_some]
    intro rest hrest
    obtain ⟨s, hsplit, hs⟩ := List.dropSuffix?_eq_some_iff.mp hrest
    obtain rfl := eq_of_beq hs
    have hend : user ++ ' ' :: action = rest ++ ' ' :: action' := by
      have hline : (user ++ ' ' :: action) ++ (' ' :: roomName ++ ['\n']) =
          (rest ++ ' ' :: action') ++ (' ' :: roomName ++ ['\n']) := by simpa using hsplit
      exact List.append_cancel_right hline
    exact heq (last_word_inj hspace hspace' hend)

theorem presenceOf_formatNotice (huser : user.length < 32) (haction : action.length < 32)
    (hroom : roomName.length < 32) (hspace : ' ' ∉ action) :
    presenceOf roomName (formatNotice maxLineLen user action roomName) = changeOf action user := by
  have hread {action' : Text} (hspace' : ' ' ∉ action') :=
    userIn_formatNotice huser haction hroom hspace hspace'
  rw [presenceOf, hread (by decide), hread (by decide), hread (by decide), changeOf]
  by_cases hjoined : action = okJoined
  · simp [hjoined]
  · by_cases hleft : action = okLeft
    · simp [hleft, show okLeft ≠ okJoined by decide]
    · by_cases hkicked : action = okKicked
      · simp [hkicked, show okKicked ≠ okJoined by decide, show okKicked ≠ okLeft by decide]
      · simp [hjoined, hleft, hkicked]

theorem presenceOf_of_not_notice (h : ¬ replyNotice <+: bytes) :
    presenceOf roomName bytes = none := by
  have hdrop : bytes.dropPrefix? (replyNotice ++ [' ']) = none := by
    rw [Option.eq_none_iff_forall_ne_some]
    intro rest hrest
    obtain ⟨p, rfl, hp⟩ := List.dropPrefix?_eq_some_iff.mp hrest
    obtain rfl := eq_of_beq hp
    exact h ⟨[' '] ++ rest, by simp⟩
  simp [presenceOf, userIn, hdrop]

theorem IsStatus.not_notice (h : IsStatus bytes) : ¬ replyNotice <+: bytes := by
  obtain ⟨status, hstatus, hpre⟩ := h
  intro hnotice
  have hfirst : status.head? = replyNotice.head? := by
    have hne : status ≠ [] := (by decide : ∀ s ∈ statusWords, s ≠ []) status hstatus
    obtain ⟨rest, rfl⟩ := hpre
    obtain ⟨rest', hrest⟩ := hnotice
    rw [← List.head?_append_of_ne_nil status hne, ← hrest]
    rfl
  revert hfirst
  exact (by decide : ∀ s ∈ statusWords, s.head? ≠ replyNotice.head?) status hstatus

@[simp] theorem heard_nil : heard fd roomName [] = [] := rfl

theorem heard_append : heard fd roomName (outs ++ outs') =
    heard fd roomName outs ++ heard fd roomName outs' := by
  rw [heard, List.filter_append, List.filterMap_append]
  rfl

theorem heard_eq_nil (h : ∀ o ∈ outs, o.fd = fd → presenceOf roomName o.line.bytes = none) :
    heard fd roomName outs = [] := by
  refine List.filterMap_eq_nil_iff.mpr fun o ho => ?_
  obtain ⟨hmem, hfd⟩ := List.mem_filter.mp ho
  exact h o hmem (by simpa using hfd)

theorem heard_of_reports (h : Reports conn w w') :
    heard fd roomName w'.out = heard fd roomName w.out := by
  obtain ⟨before, text, after, hstatus, hquiet, hout⟩ := h
  have hbefore : heard fd roomName before = [] := heard_eq_nil fun o ho _ =>
    presenceOf_of_not_notice (hquiet o (List.mem_append_left _ ho)).2
  have hanswer : heard fd roomName (⟨conn.fd, conn.channel, { bytes := text }⟩ :: after) = [] := by
    refine heard_eq_nil fun o ho _ => presenceOf_of_not_notice ?_
    rcases List.mem_cons.mp ho with rfl | ho
    · exact hstatus.not_notice
    · exact (hquiet o (List.mem_append_right _ ho)).2
  rw [hout, heard_append, heard_append, hbefore, hanswer, List.append_nil, List.append_nil]

theorem heard_of_ne (h : ∀ o ∈ outs, o.fd ≠ fd) : heard fd roomName outs = [] :=
  heard_eq_nil fun o ho hfd => absurd hfd (h o ho)

theorem heard_sent (fds : List Fd) : heard fd roomName (fds.map (⟨·, .rawSend, line⟩)) =
    (List.replicate (fds.count fd) line.bytes).filterMap (presenceOf roomName) := by
  induction fds with
  | nil => rfl
  | cons fd' fds ih =>
    rw [List.map_cons, ← List.singleton_append, heard_append, ih, List.count_cons, Nat.add_comm,
      List.replicate_add, List.filterMap_append]
    congr 1
    by_cases hfd : fd' = fd
    · subst hfd
      simp only [heard, decide_true, List.filter_cons_of_pos, List.filter_nil, beq_self_eq_true,
        if_true, List.replicate_one]
      rfl
    · simp [heard, hfd]

/-- Rooms that are not listed have no members. -/
def Roster.Vacant {R C N F : Type*} (s : Roster R C N F) : Prop := ∀ r ∉ s.rooms, s.members r = []

theorem Roster.Vacant.apply {R C N F : Type*} [DecidableEq R] [DecidableEq C] [DecidableEq F]
    {s : Roster R C N F} {a : Act R C N F} (h : s.Vacant) (ha : s.Enabled a) :
    (s.apply a).Vacant := by
  intro r hr
  cases a with
  | create r' c n cap =>
    have hr' : r ∉ s.rooms ∧ r ≠ r' := by simpa [Roster.apply] using hr
    simpa [Roster.apply, hr'.2] using h r hr'.1
  | close r' =>
    rcases eq_or_ne r r' with rfl | hne
    · exact ha.2
    · exact h r fun hmem => hr ((List.mem_erase_of_ne hne).mpr hmem)
  | enter c r' n =>
    have hne : r ≠ r' := fun he => hr (he ▸ ha.1)
    simpa [Roster.apply, hne] using h r hr
  | leave c r' =>
    have hnil : s.members r = [] := h r hr
    rcases eq_or_ne r r' with rfl | hne
    · simp [Roster.apply, hnil]
    · simpa [Roster.apply, hne] using hnil
  | _ => exact h r hr

theorem Roster.Leads.vacant {R C N F : Type*} [DecidableEq R] [DecidableEq C] [DecidableEq F]
    {s t : Roster R C N F} {P : Act R C N F → Prop} (hp : Leads P s t) (h : s.Vacant) : t.Vacant :=
  hp.invariant (fun _ _ hs ha => hs.apply ha.2) h

theorem run_vacant {cfg : Config} {db : Database} {start : ℤ} {inputs : List (Env × Event)} :
    (run step (World.init cfg db start) inputs).roster.Vacant :=
  run_invariant (I := fun w => w.roster.Vacant)
    (fun w input h => (step_leads w input.1 input.2).vacant h) (fun _ _ => rfl) inputs

theorem Roster.Leads.members_eq {R C N F : Type*} [DecidableEq R] [DecidableEq C] [DecidableEq F]
    {s t : Roster R C N F} {P : Act R C N F → Prop} {r : R} (hp : Leads P s t) (hr : r ∈ s.rooms)
    (henter : ∀ c n, ¬ P (.enter c r n)) (hleave : ∀ c, ¬ P (.leave c r))
    (hclose : ¬ P (.close r)) : t.members r = s.members r := by
  refine (hp.invariant (I := fun u => r ∈ u.rooms ∧ u.members r = s.members r) ?_ ⟨hr, rfl⟩).2
  rintro u a ⟨hr, hu⟩ ⟨hP, ha⟩
  cases a with
  | create r' c n cap =>
    have hne : r ≠ r' := fun he => ha.1 (he ▸ hr)
    exact ⟨List.mem_append_left _ hr, by simpa [Roster.apply, hne] using hu⟩
  | close r' =>
    have hne : r ≠ r' := by
      rintro rfl
      exact hclose hP
    exact ⟨(List.mem_erase_of_ne hne).mpr hr, hu⟩
  | enter c r' n =>
    have hne : r ≠ r' := by
      rintro rfl
      exact henter c n hP
    exact ⟨hr, by simpa [Roster.apply, hne] using hu⟩
  | leave c r' =>
    have hne : r ≠ r' := by
      rintro rfl
      exact hleave c hP
    exact ⟨hr, by simpa [Roster.apply, hne] using hu⟩
  | _ => exact ⟨hr, hu⟩

/-- What is heard from a broadcast depends on the members of its room. -/
theorem count_broadcastFds {ex : Fd} (hs : (rosterOf reg conns).Sound)
    (hv : (rosterOf reg conns).Vacant) (hc : c ∈ reg.clientList) (room : RoomPtr) :
    (broadcastFds room ex reg).count (reg.clients c).socketFd =
      if c ∈ (reg.rooms room).members ∧ (reg.clients c).socketFd ≠ ex then 1 else 0 := by
  by_cases hroom : room ∈ reg.roomList
  · have hlisted {m : ClientPtr} (hm : m ∈ (reg.rooms room).members) : m ∈ reg.clientList :=
      (hs.seated.of_member hroom hm).1
    have hinj : ∀ m ∈ reg.clientList, ∀ m' ∈ reg.clientList,
        (reg.clients m).socketFd = (reg.clients m').socketFd → m = m' := by
      intro m hm m' hm' heq
      have hconn : (rosterOf reg conns).conns (reg.clients m).socketFd = some (some m) :=
        hs.linked.conn_of_mem hm
      have hconn' : (rosterOf reg conns).conns (reg.clients m').socketFd = some (some m') :=
        hs.linked.conn_of_mem hm'
      rw [heq, hconn'] at hconn
      exact (Option.some.inj (Option.some.inj hconn)).symm
    have hnodup : (broadcastFds room ex reg).Nodup :=
      (List.Nodup.map_on (fun m hm m' hm' => hinj m (hlisted hm) m' (hlisted hm'))
        (hs.seated.members_nodup hroom)).filter _
    rw [hnodup.count]
    refine if_congr ?_ rfl rfl
    rw [mem_broadcastFds, and_comm]
    refine and_congr_left fun _ => ⟨?_, fun hm => ⟨c, hm, rfl⟩⟩
    rintro ⟨m, hm, heq⟩
    exact hinj m (hlisted hm) c hc heq ▸ hm
  · have hnil : (reg.rooms room).members = [] := hv room hroom
    simp [broadcastFds, hnil]

/-- The lines of a notice. -/
def noticeTo (room : RoomPtr) (user action : Text) (ex : Fd) (reg : Registry) : List Output :=
  (broadcastFds room ex reg).map
    (⟨·, .rawSend, { bytes := formatNotice maxLineLen user action (reg.rooms room).roomName }⟩)

@[simp] theorem notice_eq {room : RoomPtr} {ex : Fd} : w.notice room user action ex =
    { w with broadcasts := w.broadcasts ++
      [formatNotice maxLineLen user action (w.reg.rooms room).roomName] }.emit
        (noticeTo room user action ex w.reg) := broadcast_eq _ _ _ _

theorem heard_noticeTo {ex : Fd} {room : RoomPtr} (hs : (rosterOf reg conns).Sound)
    (hv : (rosterOf reg conns).Vacant) (hc : c ∈ reg.clientList) :
    heard (reg.clients c).socketFd roomName (noticeTo room user action ex reg) =
      if c ∈ (reg.rooms room).members ∧ (reg.clients c).socketFd ≠ ex then
        (presenceOf roomName
          (formatNotice maxLineLen user action (reg.rooms room).roomName)).toList
      else [] := by
  rw [noticeTo, heard_sent, count_broadcastFds hs hv hc]
  split_ifs
  · rw [List.replicate_one]
    cases h : presenceOf roomName
      (formatNotice maxLineLen user action (reg.rooms room).roomName) with
    | none => exact List.filterMap_cons_none h
    | some change => exact List.filterMap_cons_some h
  · rfl

theorem heard_noticeTo_self {room : RoomPtr} :
    heard fd roomName (noticeTo room user action fd reg) = [] := by
  refine heard_of_ne fun o ho => ?_
  obtain ⟨fd', hfd', rfl⟩ := List.mem_map.mp ho
  exact (mem_broadcastFds.mp hfd').1

end ChatServer
