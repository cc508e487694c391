import ChatServer.Concurrent.RoomHandlers
import ChatServer.Library.Handles
import ChatServer.Presence.Notices

/-! # Broadcasts and descriptors

`room_broadcast` reads the members' descriptors under the room's lock and
sends to them without it, while other handlers take their clients out of the
room and close their connections, and while the main thread accepts new ones,
to which the kernel gives the lowest unused descriptor. A message reaches only
connections of members exactly if no descriptor is sent to that was given out
since the snapshot.
-/

namespace ChatServer

open Library World

/-- A connection: by its descriptor if it is open at the start, by a number if it comes later. -/
inductive Link where
  | early (fd : Fd)
  | late (k : ℕ)
  deriving DecidableEq, Repr

/-- What a descriptor refers to. -/
inductive Descr where
  | socket (link : Link)
  | other
  deriving DecidableEq, Repr

/-- A message that `send` has written, and the connections of the members at the snapshot. -/
structure Written where
  link : Link
  audience : List Link
  msg : Text
  deriving DecidableEq, Repr

/-- What the handlers share: the registry, the descriptors, and what was written so far. -/
structure Net where
  reg : Registry
  fds : Handles Fd Descr
  written : List Written

/--
A call of `room_broadcast` after its snapshot: the descriptors still to send to,
and, for the record, the members' connections and how many descriptors `accept`
had returned at the snapshot.
-/
structure Broadcast where
  msg : Text
  excludeFd : Fd
  fds : List Fd
  audience : List Link
  mark : ℕ
  deriving DecidableEq, Repr

/-- What follows a broadcast: the deletion of a room left empty, and the end of the connection. -/
structure After where
  room : RoomPtr
  closing : Bool
  deriving DecidableEq, Repr

/-- What the handler of a connection does next. -/
inductive NetPhase where
  | unopened
  | greeting
  | idle
  | snapshot (room : RoomPtr) (msg : Text) (excludeFd : Fd) (after : Option After)
  | sending (b : Broadcast) (after : Option After)
  | emptyTest (after : After)
  | deleteRoom (after : After)
  | deleteClient
  | close
  | gone
  deriving DecidableEq, Repr

/-- `conn_t`, and where its handler is. -/
structure Party where
  fd : Fd
  me : Option ClientPtr
  phase : NetPhase
  deriving DecidableEq, Repr

inductive NetCommand where
  | broadcast (room : RoomPtr) (msg : Text) (excludeFd : Fd)
  | leave
  | disconnect
  deriving DecidableEq, Repr

/-- A command for an idle handler, and whether `accept`, the greeting or `malloc` succeeds. -/
structure NetInput where
  command : Option NetCommand
  ok : Bool
  deriving DecidableEq, Repr

/-- The descriptor that the kernel gives to a new connection, of the first `limit` ones. -/
def lowestUnused (limit : ℕ) (fds : Handles Fd Descr) : Option Fd :=
  ((List.range limit).map Int.ofNat).find? fun fd => (fds.holder fd).isNone

/-- The connection of a client, which has logged in before the start. -/
def linkOf (reg : Registry) (c : ClientPtr) : Link := .early (reg.clients c).socketFd

/-- `send`: on a descriptor that is closed, or no socket, it writes nothing. -/
def Net.send (net : Net) (b : Broadcast) (fd : Fd) : Net :=
  match net.fds.holder fd with
  | some (.socket link) => { net with written := net.written ++ [⟨link, b.audience, b.msg⟩] }
  | _ => net

def After.next (after : After) : NetPhase := if after.closing then .deleteClient else .idle

/-- The notice of a client that is out of its room. -/
def leftNotice (reg : Registry) (me : ClientPtr) (room : RoomPtr) : Text :=
  formatNotice maxLineLen (reg.clients me).clientName okLeft (reg.rooms room).roomName

/-- The first section of a command. -/
def startNet (net : Net) (p : Party) : NetCommand → Net × Party
  | .broadcast room msg excludeFd => (net, { p with phase := .snapshot room msg excludeFd none })
  | .leave =>
    match p.me with
    | none => (net, p)
    | some me =>
      match (net.reg.clients me).currentRoom with
      | none => (net, p)
      | some room =>
        match roomRemoveMember (some room) (some me) net.reg with
        | (.ok, reg) =>
          ({ net with reg := reg.setCurrentRoom me none },
            { p with phase := .snapshot room (leftNotice reg me room) p.fd (some ⟨room, false⟩) })
        | (_, reg) => ({ net with reg }, p)
  | .disconnect =>
    match p.me with
    | none => (net, { p with phase := .close })
    | some me =>
      match (net.reg.clients me).currentRoom with
      | none => (net, { p with phase := .deleteClient })
      | some room =>
        let reg := (roomRemoveMember (some room) (some me) net.reg).2.setCurrentRoom me none
        ({ net with reg },
          { p with phase := .snapshot room (leftNotice reg me room) p.fd (some ⟨room, true⟩) })

/-- What follows a broadcast. -/
def afterBroadcast : Option After → NetPhase
  | none => .idle
  | some after => .emptyTest after

/-- One section of the handler of a connection, or of the main thread that accepts it. -/
def netSection (limit : ℕ) (link : Link) (s : Net × Party) (input : NetInput) : Net × Party :=
  let (net, p) := s
  match p.phase with
  | .unopened =>
    match if input.ok then lowestUnused limit net.fds else none with
    | none => (net, p)
    | some fd => ({ net with fds := net.fds.give fd (.socket link) }, ⟨fd, none, .greeting⟩)
  | .greeting =>
    if input.ok then (net, { p with phase := .idle })
    else ({ net with fds := net.fds.close p.fd }, { p with phase := .gone })
  | .idle =>
    match input.command with
    | none => (net, p)
    | some command => startNet net p command
  | .snapshot room msg excludeFd after =>
    if input.ok then
      let members := (net.reg.rooms room).members
      let fds := members.map fun c => (net.reg.clients c).socketFd
      let b := ⟨msg, excludeFd, fds, members.map (linkOf net.reg), net.fds.given.length⟩
      (net, { p with phase := .sending b after })
    else (net, { p with phase := afterBroadcast after })
  | .sending b after =>
    match b.fds with
    | [] => (net, { p with phase := afterBroadcast after })
    | fd :: fds =>
      let p := { p with phase := .sending { b with fds } after }
      if fd = b.excludeFd then (net, p) else (net.send b fd, p)
  | .emptyTest after =>
    let empty := (net.reg.rooms after.room).members = []
    (net, { p with phase := if empty then .deleteRoom after else after.next })
  | .deleteRoom after =>
    ({ net with reg := (deleteRoom (some after.room) net.reg).2 }, { p with phase := after.next })
  | .deleteClient =>
    ({ net with reg := (deleteClient p.me net.reg).2 }, { p with me := none, phase := .close })
  | .close => ({ net with fds := net.fds.close p.fd }, { p with phase := .gone })
  | .gone => (net, p)

/-- A handler whose client has not begun to leave its room. -/
def NetPhase.Seated : NetPhase → Prop
  | .idle | .snapshot _ _ _ none | .sending _ none => True
  | _ => False

/-- A connection between `accept` and `close`. -/
def NetPhase.Open (phase : NetPhase) : Prop := phase ≠ .unopened ∧ phase ≠ .gone

variable {limit : ℕ} {net : Net} {p : Party} {link : Link} {input : NetInput} {b : Broadcast}
  {after : Option After} {reg : Registry} {c : ClientPtr} {r : RoomPtr}

theorem NetPhase.Seated.isOpen {phase : NetPhase} (h : phase.Seated) : phase.Open := by
  constructor <;> rintro rfl <;> exact h

/-! ## What one section does -/

@[simp] theorem send_reg (fd : Fd) : (net.send b fd).reg = net.reg := by
  unfold Net.send
  split <;> rfl

@[simp] theorem send_fds (fd : Fd) : (net.send b fd).fds = net.fds := by
  unfold Net.send
  split <;> rfl

theorem afterBroadcast_open : (afterBroadcast after).Open := by
  cases after <;> exact ⟨by rintro ⟨⟩, by rintro ⟨⟩⟩

theorem After.next_open (after : After) : after.next.Open := by
  unfold After.next
  split_ifs <;> exact ⟨by rintro ⟨⟩, by rintro ⟨⟩⟩

theorem startNet_fds (net : Net) (p : Party) (command : NetCommand) (h : p.phase.Open) :
    (startNet net p command).1.fds = net.fds ∧ (startNet net p command).2.fd = p.fd ∧
      (startNet net p command).2.phase.Open := by
  cases command with
  | broadcast room msg excludeFd => exact ⟨rfl, rfl, by rintro ⟨⟩, by rintro ⟨⟩⟩
  | leave =>
    simp only [startNet]
    split
    · exact ⟨rfl, rfl, h⟩
    · split
      · exact ⟨rfl, rfl, h⟩
      · split
        · exact ⟨rfl, rfl, by rintro ⟨⟩, by rintro ⟨⟩⟩
        · exact ⟨rfl, rfl, h⟩
  | disconnect =>
    simp only [startNet]
    split
    · exact ⟨rfl, rfl, by rintro ⟨⟩, by rintro ⟨⟩⟩
    · split <;> exact ⟨rfl, rfl, by rintro ⟨⟩, by rintro ⟨⟩⟩

/-- A section keeps the descriptors, or is an `accept` or a `close`. -/
inductive FdsMove (link : Link) (net : Net) (p : Party) (next : Net × Party) : Prop
  | keep (fds : next.1.fds = net.fds) (fd : next.2.fd = p.fd)
      (same : next.2.phase.Open ↔ p.phase.Open)
  | accept {fd : Fd} (before : p.phase = .unopened) (unused : net.fds.holder fd = none)
      (fds : next.1.fds = net.fds.give fd (.socket link)) (reg : next.1.reg = net.reg)
      (party : next.2 = ⟨fd, none, .greeting⟩)
  | close (before : p.phase = .greeting ∨ p.phase = .close)
      (fds : next.1.fds = net.fds.close p.fd) (reg : next.1.reg = net.reg)
      (gone : next.2.phase = .gone)

theorem lowestUnused_some {fds : Handles Fd Descr} {fd : Fd}
    (h : lowestUnused limit fds = some fd) : fds.holder fd = none := by
  simpa using List.find?_some h

theorem netSection_fds (limit : ℕ) (link : Link) (net : Net) (p : Party) (input : NetInput) :
    FdsMove link net p (netSection limit link (net, p) input) := by
  obtain ⟨fd, me, phase⟩ := p
  have hopen : ∀ {phase : NetPhase}, phase ≠ .unopened → phase ≠ .gone → phase.Open :=
    fun h₁ h₂ => ⟨h₁, h₂⟩
  cases phase with
  | unopened =>
    simp only [netSection]
    split
    · exact .keep rfl rfl Iff.rfl
    · rename_i fd' hfd
      split_ifs at hfd
      exact .accept rfl (lowestUnused_some hfd) rfl rfl rfl
  | greeting =>
    simp only [netSection]
    split_ifs
    · exact .keep rfl rfl (iff_of_true (hopen nofun nofun) (hopen nofun nofun))
    · exact .close (.inl rfl) rfl rfl rfl
  | idle =>
    cases hcommand : input.command with
    | none =>
      simp only [netSection, hcommand]
      exact .keep rfl rfl Iff.rfl
    | some command =>
      simp only [netSection, hcommand]
      have hidle : NetPhase.Open .idle := hopen nofun nofun
      obtain ⟨hfds, hfd, hopen'⟩ := startNet_fds net ⟨fd, me, .idle⟩ command hidle
      exact .keep hfds hfd (iff_of_true hopen' hidle)
  | snapshot room msg excludeFd after =>
    simp only [netSection]
    split_ifs
    · exact .keep rfl rfl (iff_of_true (hopen nofun nofun) (hopen nofun nofun))
    · exact .keep rfl rfl (iff_of_true afterBroadcast_open (hopen nofun nofun))
  | sending b after =>
    simp only [netSection]
    split
    · exact .keep rfl rfl (iff_of_true afterBroadcast_open (hopen nofun nofun))
    · split_ifs
      · exact .keep rfl rfl (iff_of_true (hopen nofun nofun) (hopen nofun nofun))
      · exact .keep (send_fds _) rfl (iff_of_true (hopen nofun nofun) (hopen nofun nofun))
  | emptyTest after =>
    refine .keep rfl rfl (iff_of_true ?_ (hopen nofun nofun))
    simp only [netSection]
    split_ifs
    · exact hopen nofun nofun
    · exact after.next_open
  | deleteRoom after => exact .keep rfl rfl (iff_of_true after.next_open (hopen nofun nofun))
  | deleteClient => exact .keep rfl rfl (iff_of_true (hopen nofun nofun) (hopen nofun nofun))
  | close => exact .close (.inr rfl) rfl rfl rfl
  | gone => exact .keep rfl rfl Iff.rfl

/-- A section keeps who sits where, or takes its client out of its room. -/
inductive RegMove (net : Net) (p : Party) (next : Net × Party) : Prop
  | keep (members : ∀ r, (next.1.reg.rooms r).members = (net.reg.rooms r).members)
      (clients : next.1.reg.clients = net.reg.clients)
      (seated : p.phase.Seated → ∀ c, p.me = some c → (net.reg.clients c).currentRoom ≠ none →
        next.2.phase.Seated ∧ next.2.me = some c)
  | leave {c : ClientPtr} {room : RoomPtr} (me : p.me = some c)
      (inside : (net.reg.clients c).currentRoom = some room)
      (reg : next.1.reg =
        (roomRemoveMember (some room) (some c) net.reg).2.setCurrentRoom c none)

theorem startNet_reg (command : NetCommand) :
    RegMove net p (startNet net p command) := by
  have hstay : RegMove net p (net, p) := .keep (fun _ => rfl) rfl fun hs c hme _ => ⟨hs, hme⟩
  cases command with
  | broadcast room msg excludeFd =>
    exact .keep (fun _ => rfl) rfl fun _ c hme _ => ⟨trivial, hme⟩
  | leave =>
    simp only [startNet]
    cases hme : p.me with
    | none => exact hstay
    | some me =>
      cases hroom : (net.reg.clients me).currentRoom with
      | none =>
        simp only [hroom]
        exact hstay
      | some room =>
        rcases hremove : roomRemoveMember (some room) (some me) net.reg with ⟨err, reg⟩
        by_cases hok : err = .ok
        · subst hok
          simp only [hroom, hremove]
          exact .leave hme hroom (by rw [hremove])
        · obtain rfl := roomRemoveMember_err hok hremove
          simp only [hroom, hremove]
          cases err <;> first | exact absurd rfl hok | exact hstay
  | disconnect =>
    simp only [startNet]
    cases hme : p.me with
    | none => exact .keep (fun _ => rfl) rfl fun _ c hc => by cases hme.symm.trans hc
    | some me =>
      cases hroom : (net.reg.clients me).currentRoom with
      | none =>
        simp only [hroom]
        refine .keep (fun _ => rfl) rfl fun _ c hc hin => ?_
        obtain rfl := Option.some.inj (hme.symm.trans hc)
        exact absurd hroom hin
      | some room =>
        simp only [hroom]
        exact .leave hme hroom rfl

theorem afterBroadcast_seated (h : (NetPhase.sending b after).Seated) :
    (afterBroadcast after).Seated := by
  cases after with
  | none => trivial
  | some after => exact h.elim

theorem netSection_reg (limit : ℕ) (link : Link) (net : Net) (p : Party) (input : NetInput) :
    RegMove net p (netSection limit link (net, p) input) := by
  obtain ⟨fd, me, phase⟩ := p
  cases phase with
  | unopened =>
    simp only [netSection]
    split <;> exact .keep (fun _ => rfl) rfl fun h => h.elim
  | greeting =>
    simp only [netSection]
    split_ifs <;> exact .keep (fun _ => rfl) rfl fun h => h.elim
  | idle =>
    cases hcommand : input.command with
    | none =>
      simp only [netSection, hcommand]
      exact .keep (fun _ => rfl) rfl fun hs c hme _ => ⟨hs, hme⟩
    | some command =>
      simp only [netSection, hcommand]
      exact startNet_reg command
  | snapshot room msg excludeFd after =>
    simp only [netSection]
    split_ifs
    · exact .keep (fun _ => rfl) rfl fun hs c hme _ => ⟨by cases after <;> exact hs, hme⟩
    · exact .keep (fun _ => rfl) rfl fun hs c hme _ => ⟨by cases after <;> exact hs, hme⟩
  | sending b after =>
    simp only [netSection]
    split
    · exact .keep (fun _ => rfl) rfl fun hs c hme _ => ⟨afterBroadcast_seated hs, hme⟩
    · split_ifs
      · exact .keep (fun _ => rfl) rfl fun hs c hme _ => ⟨by cases after <;> exact hs, hme⟩
      · exact .keep (fun _ => by rw [send_reg]) (by rw [send_reg]) fun hs c hme _ =>
          ⟨by cases after <;> exact hs, hme⟩
  | emptyTest after => exact .keep (fun _ => rfl) rfl fun h => h.elim
  | deleteRoom after =>
    refine .keep (fun r => ?_) ?_ fun h => h.elim
    · simp only [netSection, ChatServer.deleteRoom]
      split_ifs <;> rfl
    · simp only [netSection, ChatServer.deleteRoom]
      split_ifs <;> rfl
  | deleteClient =>
    have hkeep : (ChatServer.deleteClient me net.reg).2.rooms = net.reg.rooms ∧
        (ChatServer.deleteClient me net.reg).2.clients = net.reg.clients := by
      cases me with
      | none => exact ⟨rfl, rfl⟩
      | some me =>
        simp only [ChatServer.deleteClient]
        split_ifs <;> exact ⟨rfl, rfl⟩
    exact .keep (fun r => by rw [netSection, hkeep.1]) hkeep.2 fun h => h.elim
  | close => exact .keep (fun _ => rfl) rfl fun h => h.elim
  | gone => exact .keep (fun _ => rfl) rfl fun h => h.elim

/-- The snapshot of a broadcast. -/
def snapshotOf (net : Net) (room : RoomPtr) (msg : Text) (excludeFd : Fd) : Broadcast :=
  let members := (net.reg.rooms room).members
  ⟨msg, excludeFd, members.map fun c => (net.reg.clients c).socketFd,
    members.map (linkOf net.reg), net.fds.given.length⟩

theorem startNet_not_sending (command : NetCommand) (h : ∀ b after, p.phase ≠ .sending b after) :
    (startNet net p command).2.phase ≠ .sending b after := by
  cases command with
  | broadcast room msg excludeFd => nofun
  | leave =>
    simp only [startNet]
    split
    · exact h b after
    · split
      · exact h b after
      · split
        · nofun
        · exact h b after
  | disconnect =>
    simp only [startNet]
    split
    · nofun
    · split <;> nofun

/-- A broadcast under way has begun with a snapshot, or goes on with its next descriptor. -/
theorem netSection_sending (h : (netSection limit link (net, p) input).2.phase = .sending b after) :
    (netSection limit link (net, p) input).1.fds = net.fds ∧
      ((∃ room msg excludeFd, b = snapshotOf net room msg excludeFd) ∨
        ∃ b₀, p.phase = .sending b₀ after ∧ b.mark = b₀.mark ∧ b.audience = b₀.audience ∧
          b.fds ⊆ b₀.fds) := by
  obtain ⟨fd, me, phase⟩ := p
  cases phase with
  | snapshot room msg excludeFd after' =>
    simp only [netSection] at h ⊢
    split_ifs at h ⊢ with hok
    · obtain ⟨rfl, rfl⟩ := NetPhase.sending.inj h
      exact ⟨rfl, .inl ⟨room, msg, excludeFd, rfl⟩⟩
    · cases after' <;> cases h
  | sending b₀ after' =>
    simp only [netSection] at h ⊢
    cases hfds : b₀.fds with
    | nil =>
      simp only [hfds] at h
      cases after' <;> cases h
    | cons fd' fds =>
      simp only [hfds] at h ⊢
      have hnext : NetPhase.sending { b₀ with fds } after' = .sending b after := by
        split_ifs at h <;> exact h
      obtain ⟨rfl, rfl⟩ := NetPhase.sending.inj hnext
      refine ⟨?_, .inr ⟨b₀, rfl, rfl, rfl, ?_⟩⟩
      · split_ifs
        · rfl
        · exact send_fds fd'
      · rw [hfds]
        exact List.subset_cons_self fd' fds
  | idle =>
    cases hcommand : input.command with
    | none => simp [netSection, hcommand] at h
    | some command =>
      simp only [netSection, hcommand] at h
      exact absurd h (startNet_not_sending command nofun)
  | unopened =>
    simp only [netSection] at h
    split at h <;> cases h
  | greeting =>
    simp only [netSection] at h
    split_ifs at h
  | emptyTest after' =>
    simp only [netSection, After.next] at h
    split_ifs at h
  | deleteRoom after' =>
    simp only [netSection, After.next] at h
    split_ifs at h
  | deleteClient => cases h
  | close => cases h
  | gone => cases h

theorem startNet_written (command : NetCommand) :
    (startNet net p command).1.written = net.written := by
  cases command with
  | broadcast room msg excludeFd => rfl
  | leave =>
    simp only [startNet]
    split
    · rfl
    · split
      · rfl
      · split <;> rfl
  | disconnect =>
    simp only [startNet]
    split
    · rfl
    · split <;> rfl

theorem netSection_written (limit : ℕ) (link : Link) (net : Net) (p : Party) (input : NetInput) :
    (netSection limit link (net, p) input).1.written = net.written ∨
      ∃ b after fd fds l, p.phase = .sending b after ∧ b.fds = fd :: fds ∧ fd ≠ b.excludeFd ∧
        net.fds.holder fd = some (.socket l) ∧
        (netSection limit link (net, p) input).1.written =
          net.written ++ [⟨l, b.audience, b.msg⟩] := by
  obtain ⟨fd, me, phase⟩ := p
  cases phase with
  | sending b after =>
    cases hfds : b.fds with
    | nil => exact .inl (by simp only [netSection, hfds])
    | cons fd' fds =>
      by_cases hexclude : fd' = b.excludeFd
      · exact .inl (by simp only [netSection, hfds, if_pos hexclude])
      · simp only [netSection, hfds, if_neg hexclude, Net.send]
        split
        · rename_i l hl
          exact .inr ⟨b, after, fd', fds, l, rfl, hfds, hexclude, hl, rfl⟩
        · exact .inl rfl
  | unopened =>
    simp only [netSection]
    split <;> exact .inl rfl
  | greeting =>
    simp only [netSection]
    split_ifs <;> exact .inl rfl
  | idle =>
    simp only [netSection]
    split
    · exact .inl rfl
    · exact .inl (startNet_written _)
  | snapshot room msg excludeFd after =>
    simp only [netSection]
    split_ifs <;> exact .inl rfl
  | _ => exact .inl rfl

/-! ## Every interleaving -/

/-- One section of the handler of one connection. -/
abbrev netStep (limit : ℕ) : Threads Link Net Party → Link × NetInput → Threads Link Net Party :=
  Threads.step (netSection limit)

/-- Messages are written only to connections of members at the snapshot. -/
def Confined (net : Net) : Prop := ∀ x ∈ net.written, x.link ∈ x.audience

instance (net : Net) : Decidable (Confined net) :=
  inferInstanceAs (Decidable (∀ x ∈ net.written, x.link ∈ x.audience))

/--
A broadcast sends to a descriptor that `accept` has returned since the snapshot
and that is still open.
-/
def SendsToReused (s : Threads Link Net Party) (input : Link × NetInput) : Prop :=
  match (s.loc input.1).phase with
  | .sending b _ =>
    match b.fds with
    | [] => False
    | fd :: _ => fd ≠ b.excludeFd ∧ fd ∈ s.shared.fds.since b.mark ∧
        ∃ l, s.shared.fds.holder fd = some (.socket l)
  | _ => False

/-- A connection of the audience is referred to. -/
def Broadcast.Heard (b : Broadcast) (d : Descr) : Prop := ∃ l ∈ b.audience, d = .socket l

/--
What holds between any two sections: a descriptor refers to the connection it
was returned for, members are on open connections of their own, and the
descriptors of a broadcast refer to its audience unless they were returned anew.
-/
structure NetSound (s : Threads Link Net Party) : Prop where
  opened : ∀ i, (s.loc i).phase.Open → s.shared.fds.holder (s.loc i).fd = some (.socket i)
  early : ∀ fd, (s.loc (.early fd)).phase ≠ .unopened
  nodup : ∀ r, (s.shared.reg.rooms r).members.Nodup
  inside : ∀ r, ∀ c ∈ (s.shared.reg.rooms r).members,
    (s.shared.reg.clients c).currentRoom = some r
  seated : ∀ r, ∀ c ∈ (s.shared.reg.rooms r).members,
    (s.loc (linkOf s.shared.reg c)).phase.Seated ∧ (s.loc (linkOf s.shared.reg c)).me = some c ∧
      (s.loc (linkOf s.shared.reg c)).fd = (s.shared.reg.clients c).socketFd
  sending : ∀ i b after, (s.loc i).phase = .sending b after →
    s.shared.fds.Recalls b.mark b.Heard b.fds ∧ ∀ l ∈ b.audience, ∃ fd, l = .early fd

variable {s : Threads Link Net Party} {i : Link}

theorem NetSound.opened_step (h : NetSound s) (j : Link)
    (hj : ((netStep limit s (i, input)).loc j).phase.Open) :
    (netStep limit s (i, input)).shared.fds.holder ((netStep limit s (i, input)).loc j).fd =
      some (.socket j) := by
  rw [Threads.step_shared]
  rcases eq_or_ne j i with rfl | hne
  · rw [Threads.step_loc_self] at hj ⊢
    cases netSection_fds limit j s.shared (s.loc j) input with
    | keep fds fd same => rw [fds, fd, h.opened j (same.mp hj)]
    | accept before unused fds reg party => simp [fds, party, Handles.give]
    | close before fds reg gone => exact absurd gone hj.2
  · rw [Threads.step_loc_of_ne hne] at hj ⊢
    have hold := h.opened j hj
    cases netSection_fds limit i s.shared (s.loc i) input with
    | keep fds fd same => rw [fds, hold]
    | @accept fd before unused fds reg party =>
      have hfd : (s.loc j).fd ≠ fd := fun he => by rw [he, unused] at hold; cases hold
      simpa [fds, Handles.give, hfd] using hold
    | close before fds reg gone =>
      have hopen : (s.loc i).phase.Open := by
        rcases before with before | before <;> rw [before] <;> exact ⟨by simp, by simp⟩
      have hfd : (s.loc j).fd ≠ (s.loc i).fd := fun he => by
        rw [he, h.opened i hopen] at hold
        exact hne (by simpa using hold.symm)
      simpa [fds, Handles.close, hfd] using hold

theorem NetSound.early_step (h : NetSound s) (fd : Fd) :
    ((netStep limit s (i, input)).loc (.early fd)).phase ≠ .unopened := by
  rcases eq_or_ne (.early fd) i with rfl | hne
  · rw [Threads.step_loc_self]
    have hbefore := h.early fd
    cases netSection_fds limit (.early fd) s.shared (s.loc (.early fd)) input with
    | keep fds fd' same =>
      by_cases hgone : (s.loc (.early fd)).phase = .gone
      · simp [netSection, hgone]
      · exact (same.mpr ⟨hbefore, hgone⟩).1
    | accept before => exact absurd before hbefore
    | close before fds reg gone =>
      rw [gone]
      nofun
  · rw [Threads.step_loc_of_ne hne]
    exact h.early fd

/-- A member after a section is inside its room, at the link and descriptor it had. -/
structure KeepsSeat (s s' : Threads Link Net Party) (r : RoomPtr) (c : ClientPtr) : Prop where
  inside : (s'.shared.reg.clients c).currentRoom = some r
  link : linkOf s'.shared.reg c = linkOf s.shared.reg c
  socketFd : (s'.shared.reg.clients c).socketFd = (s.shared.reg.clients c).socketFd
  seated : (s'.loc (linkOf s.shared.reg c)).phase.Seated
  me : (s'.loc (linkOf s.shared.reg c)).me = some c
  fd : (s'.loc (linkOf s.shared.reg c)).fd = (s.shared.reg.clients c).socketFd

theorem NetSound.fd_step (h : NetSound s) {r : RoomPtr} {c : ClientPtr}
    (hc : c ∈ (s.shared.reg.rooms r).members) :
    ((netStep limit s (i, input)).loc (linkOf s.shared.reg c)).fd =
      (s.shared.reg.clients c).socketFd := by
  obtain ⟨hseated, -, hsocket⟩ := h.seated r c hc
  rw [← hsocket]
  rcases eq_or_ne (linkOf s.shared.reg c) i with rfl | hne
  · rw [Threads.step_loc_self]
    cases netSection_fds limit _ s.shared (s.loc (linkOf s.shared.reg c)) input with
    | keep fds fd same => exact fd
    | accept before => rw [before] at hseated; exact hseated.elim
    | close before => rcases before with before | before <;> rw [before] at hseated <;>
        exact hseated.elim
  · rw [Threads.step_loc_of_ne hne]

theorem NetSound.stays (h : NetSound s) {r : RoomPtr} {c : ClientPtr}
    (hc : c ∈ (s.shared.reg.rooms r).members)
    (clients : (netStep limit s (i, input)).shared.reg.clients = s.shared.reg.clients)
    (seated : (s.loc i).phase.Seated → ∀ c, (s.loc i).me = some c →
      (s.shared.reg.clients c).currentRoom ≠ none →
      ((netStep limit s (i, input)).loc i).phase.Seated ∧
        ((netStep limit s (i, input)).loc i).me = some c) :
    KeepsSeat s (netStep limit s (i, input)) r c := by
  have hin := h.inside r c hc
  obtain ⟨hseated, hme, -⟩ := h.seated r c hc
  have hplace : ((netStep limit s (i, input)).loc (linkOf s.shared.reg c)).phase.Seated ∧
      ((netStep limit s (i, input)).loc (linkOf s.shared.reg c)).me = some c := by
    rcases eq_or_ne (linkOf s.shared.reg c) i with rfl | hne
    · exact seated hseated c hme (by simp [hin])
    · rw [Threads.step_loc_of_ne hne]
      exact ⟨hseated, hme⟩
  exact {
    inside := by rw [clients, hin]
    link := by rw [linkOf, linkOf, clients]
    socketFd := by rw [clients]
    seated := hplace.1
    me := hplace.2
    fd := h.fd_step hc }

/-- The members after `d` has left a room are the others. -/
theorem NetSound.mem_leave (h : NetSound s) {room : RoomPtr} {d : ClientPtr}
    (inside : (s.shared.reg.clients d).currentRoom = some room) {r : RoomPtr} {c : ClientPtr}
    (hc : c ∈ (((s.shared.reg.modifyRoom room fun room =>
      { room with members := room.members.erase d }).setCurrentRoom d none).rooms r).members) :
    c ∈ (s.shared.reg.rooms r).members ∧ c ≠ d := by
  rcases eq_or_ne r room with rfl | hroom
  · have hc' : c ∈ (s.shared.reg.rooms r).members.erase d := by simpa using hc
    exact ⟨List.mem_of_mem_erase hc', ((h.nodup r).mem_erase_iff.mp hc').1⟩
  · have hc' : c ∈ (s.shared.reg.rooms r).members := by simpa [hroom] using hc
    refine ⟨hc', ?_⟩
    rintro rfl
    exact hroom (by simpa [inside] using (h.inside r c hc').symm)

/-- The members after a section were members before, and the one who moves is in its place. -/
theorem NetSound.seats_step (h : NetSound s) :
    (∀ r, ((netStep limit s (i, input)).shared.reg.rooms r).members.Nodup) ∧
      ∀ r, ∀ c ∈ ((netStep limit s (i, input)).shared.reg.rooms r).members,
        KeepsSeat s (netStep limit s (i, input)) r c := by
  cases netSection_reg limit i s.shared (s.loc i) input with
  | keep members clients seated =>
    refine ⟨fun r => by rw [Threads.step_shared, members]; exact h.nodup r, fun r c hc => ?_⟩
    rw [Threads.step_shared, members] at hc
    exact h.stays hc clients (by rwa [Threads.step_loc_self])
  | @leave d room me inside reg =>
    have hreg : (netStep limit s (i, input)).shared.reg =
        (s.shared.reg.modifyRoom room fun room =>
          { room with members := room.members.erase d }).setCurrentRoom d none := by
      rw [← roomRemoveMember_snd, ← reg]
      rfl
    refine ⟨fun r => ?_, fun r c hc => ?_⟩
    · rw [hreg]
      rcases eq_or_ne r room with rfl | hroom
      · simpa using (h.nodup r).erase d
      · simpa [hroom] using h.nodup r
    · obtain ⟨hc', hne⟩ := h.mem_leave inside (hreg ▸ hc)
      obtain ⟨hseated, hme, -⟩ := h.seated r c hc'
      have hclient : (netStep limit s (i, input)).shared.reg.clients c =
          s.shared.reg.clients c := by
        rw [hreg]
        simp [hne]
      have hlink : linkOf s.shared.reg c ≠ i := by
        rintro rfl
        exact hne (by simpa [me] using hme.symm)
      exact {
        inside := by rw [hclient, h.inside r c hc']
        link := by rw [linkOf, linkOf, hclient]
        socketFd := by rw [hclient]
        seated := by rwa [Threads.step_loc_of_ne hlink]
        me := by rwa [Threads.step_loc_of_ne hlink]
        fd := h.fd_step hc' }

theorem NetSound.sending_step (h : NetSound s) (j : Link) (b : Broadcast) (after : Option After)
    (hj : ((netStep limit s (i, input)).loc j).phase = .sending b after) :
    (netStep limit s (i, input)).shared.fds.Recalls b.mark b.Heard b.fds ∧
      ∀ l ∈ b.audience, ∃ fd, l = .early fd := by
  rw [Threads.step_shared]
  rcases eq_or_ne j i with rfl | hne
  · rw [Threads.step_loc_self] at hj
    obtain ⟨hfds, ⟨room, msg, excludeFd, rfl⟩ | ⟨b₀, hb₀, hmark, haudience, hsub⟩⟩ :=
      netSection_sending hj
    · rw [hfds]
      refine ⟨Handles.recalls_now fun fd hfd d hd => ?_, ?_⟩
      · obtain ⟨c, hc, rfl⟩ := List.mem_map.mp hfd
        obtain ⟨hseated, -, hfd'⟩ := h.seated room c hc
        have hopened := h.opened _ hseated.isOpen
        rw [hfd', hd] at hopened
        exact ⟨_, List.mem_map_of_mem hc, Option.some.inj hopened⟩
      · intro l hl
        obtain ⟨c, -, rfl⟩ := List.mem_map.mp hl
        exact ⟨_, rfl⟩
    · obtain ⟨hrecalls, hinl⟩ := h.sending j b₀ after hb₀
      have hheard : b.Heard = b₀.Heard := by
        funext d
        rw [Broadcast.Heard, Broadcast.Heard, haudience]
      rw [hfds, hmark, hheard, haudience]
      exact ⟨hrecalls.mono hsub, hinl⟩
  · rw [Threads.step_loc_of_ne hne] at hj
    obtain ⟨hrecalls, hinl⟩ := h.sending j b after hj
    refine ⟨?_, hinl⟩
    cases netSection_fds limit i s.shared (s.loc i) input with
    | keep fds fd same => rwa [fds]
    | accept before unused fds reg party =>
      rw [fds]
      refine hrecalls.give _ ?_
      rintro ⟨l, hl, he⟩
      obtain rfl := Descr.socket.inj he
      obtain ⟨fd', rfl⟩ := hinl _ hl
      exact h.early fd' before
    | close before fds reg gone =>
      rw [fds]
      exact hrecalls.close _

theorem NetSound.step (h : NetSound s) (input : Link × NetInput) :
    NetSound (netStep limit s input) := by
  obtain ⟨i, input⟩ := input
  obtain ⟨hnodup, hseats⟩ := @NetSound.seats_step limit input s i h
  refine ⟨h.opened_step, h.early_step, hnodup, fun r c hc => (hseats r c hc).inside,
    fun r c hc => ?_, h.sending_step⟩
  have hseat := hseats r c hc
  rw [hseat.link, hseat.socketFd]
  exact ⟨hseat.seated, hseat.me, hseat.fd⟩

theorem NetSound.known_iff (h : NetSound s) {fd : Fd} {fds : List Fd} {l : Link}
    (hphase : (s.loc i).phase = .sending b after) (hfds : b.fds = fd :: fds)
    (hholder : s.shared.fds.holder fd = some (.socket l)) :
    l ∈ b.audience ↔ fd ∉ s.shared.fds.since b.mark := by
  have hheard : b.Heard (.socket l) ↔ l ∈ b.audience := by simp [Broadcast.Heard]
  rw [← hheard]
  exact (h.sending i b after hphase).1.known_iff (by rw [hfds]; exact List.mem_cons_self) hholder

/-- A section that does not send to a reused descriptor writes to the audience only. -/
theorem confined_step (h : NetSound s) (hc : Confined s.shared)
    (hsend : ¬ SendsToReused s (i, input)) : Confined (netStep limit s (i, input)).shared := by
  rw [Threads.step_shared, Confined]
  rcases netSection_written limit i s.shared (s.loc i) input with
    hkeep | ⟨b, after, fd, fds, l, hphase, hfds, hexclude, hholder, hwritten⟩
  · rw [hkeep]
    exact hc
  · rw [hwritten]
    intro x hx
    rcases List.mem_append.mp hx with hx | hx
    · exact hc x hx
    · obtain rfl := List.mem_singleton.mp hx
      refine (h.known_iff hphase hfds hholder).mpr fun hsince => hsend ?_
      simp only [SendsToReused, hphase, hfds]
      exact ⟨hexclude, hsince, l, hholder⟩

/-- A section that sends to a reused descriptor writes to a connection outside the audience. -/
theorem not_confined_step (h : NetSound s) (hsend : SendsToReused s (i, input)) :
    ¬ Confined (netStep limit s (i, input)).shared := by
  cases hphase : (s.loc i).phase with
  | sending b after =>
    cases hfds : b.fds with
    | nil => simp only [SendsToReused, hphase, hfds] at hsend
    | cons fd fds =>
      simp only [SendsToReused, hphase, hfds] at hsend
      obtain ⟨hexclude, hsince, l, hholder⟩ := hsend
      intro hc
      refine (h.known_iff hphase hfds hholder).mp (hc ⟨l, b.audience, b.msg⟩ ?_) hsince
      simp [netSection, hphase, hfds, hexclude, Net.send, hholder]
  | _ => simp only [SendsToReused, hphase] at hsend

/-! ## From a reachable state -/

/-- The descriptors of the open connections, and others that are in use. -/
def heldFds (taken : Fd → Bool) (w : World) : Handles Fd Descr where
  holder fd :=
    if (w.conns.get fd).isSome then some (.socket (.early fd))
    else if taken fd then some .other else none
  given := []

/-- The handlers of the open connections are idle, and no other connection is there yet. -/
def parties (w : World) : Link → Party
  | .early fd =>
    ⟨fd, (w.conns.get fd).bind (·.me), if (w.conns.get fd).isSome then .idle else .gone⟩
  | .late _ => ⟨0, none, .unopened⟩

def netStart (taken : Fd → Bool) (w : World) : Threads Link Net Party :=
  ⟨⟨w.reg, heldFds taken w, []⟩, parties w⟩

theorem netSound_start {taken : Fd → Bool} {w : World} (hs : w.roster.Sound)
    (hv : w.roster.Vacant) : NetSound (netStart taken w) := by
  have hlive : ∀ r, ∀ c ∈ (w.reg.rooms r).members, r ∈ w.reg.roomList := by
    intro r c hc
    by_contra hr
    have hnil : (w.reg.rooms r).members = [] := hv r hr
    rw [hnil] at hc
    cases hc
  refine ⟨?_, ?_, fun r => ?_, fun r c hc => ?_, fun r c hc => ?_, ?_⟩
  · rintro (fd | k) hopen
    · have hconn : (w.conns.get fd).isSome := by
        by_contra hnone
        simp [netStart, parties, hnone, NetPhase.Open] at hopen
      simp [netStart, parties, heldFds, hconn]
    · exact absurd rfl hopen.1
  · intro fd
    simp only [netStart, parties]
    split_ifs <;> nofun
  · by_cases hr : r ∈ w.reg.roomList
    · exact hs.seated.members_nodup hr
    · have hnil : (w.reg.rooms r).members = [] := hv r hr
      exact hnil ▸ List.nodup_nil
  · exact (hs.seated.of_member (hlive r c hc) hc).2
  · obtain ⟨conn, hconn, hme⟩ := roster_conns_eq_some.mp
      (hs.linked.conn_of_mem (hs.seated.of_member (hlive r c hc) hc).1)
    have hget : w.conns.get (w.reg.clients c).socketFd = some conn := hconn
    simp only [netStart, linkOf, parties, hget, Option.isSome_some, if_true, Option.bind_some]
    exact ⟨trivial, hme, trivial⟩
  · rintro (fd | k) b after hb
    · simp only [netStart, parties] at hb
      split_ifs at hb
    · cases hb

/--
From every reachable state, in every interleaving of broadcasts, leaves,
disconnects and accepts, room messages are written only to connections of
clients that were members at the snapshot, exactly if no broadcast sends to an
open descriptor that `accept` has returned since its snapshot.
-/
theorem broadcast_confined_iff (cfg : Config) (db : Database) (start : ℤ)
    (earlier : List (Env × Event)) (taken : Fd → Bool) (limit : ℕ)
    (inputs : List (Link × NetInput)) :
    let s := netStart taken (run ChatServer.step (World.init cfg db start) earlier)
    (∀ pre, pre <+: inputs → Confined (run (netStep limit) s pre).shared) ↔
      Along (netStep limit) (fun s input => ¬ SendsToReused s input) s inputs := by
  intro s
  refine (along_iff_prefixes (I := fun s => Confined s.shared) (J := NetSound)
    (fun s input h => h.step input) (fun s input h hc => confined_step h hc)
    (fun s input h _ hsend => not_confined_step h (not_not.mp hsend))
    (netSound_start run_sound run_vacant) ?_).symm
  · exact fun x hx => by cases hx

/-- Alice and Bob are in the lounge. -/
def aliceBobLounge : World :=
  run ChatServer.step (World.init ⟨4, 4, 4, 10⟩ .empty 0)
    [(.calm 0 0 [], .accept 4 false),
     (.calm 0 0 "t0".toList, .line 4 "REGISTER alice pw".toList),
     (.calm 0 0 [], .line 4 "CREATE lounge".toList),
     (.calm 0 0 [], .accept 5 false),
     (.calm 0 1 "t1".toList, .line 5 "REGISTER bob pw".toList),
     (.calm 0 1 [], .line 5 "JOIN lounge".toList)]

/-- Alice's message has its snapshot, Bob hangs up, and Carol gets his descriptor. -/
def reuse : List (Link × NetInput) :=
  [(.early 4, ⟨some (.broadcast 0 "hello".toList 4), true⟩), (.early 4, ⟨none, true⟩),
   (.early 5, ⟨some .disconnect, true⟩), (.early 5, ⟨none, true⟩), (.early 5, ⟨none, true⟩),
   (.early 5, ⟨none, true⟩), (.early 5, ⟨none, true⟩), (.early 5, ⟨none, true⟩),
   (.early 5, ⟨none, true⟩), (.late 0, ⟨none, true⟩), (.early 4, ⟨none, true⟩),
   (.early 4, ⟨none, true⟩)]

/-- Carol, who is not even logged in, gets the message. -/
theorem reuse_not_confined :
    ¬ Confined (run (netStep 8) (netStart (· < 4) aliceBobLounge) reuse).shared := by
  decide +kernel

end ChatServer
