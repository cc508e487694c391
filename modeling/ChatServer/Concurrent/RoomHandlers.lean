import ChatServer.Library.Interleave
import ChatServer.Membership.Steps

/-! # Room handlers section by section

CREATE, JOIN, ACCEPT, LEAVE, LOGOUT and the disconnect as the critical sections
they pass through, which those of other handlers may come between. Each section
is one step, with what the handler does before its next one.
-/

namespace ChatServer

open Library World

/-- The commands that enter and leave rooms. -/
inductive RoomCommand where
  | create (roomName : Text)
  | join (roomName : Text)
  | accept (roomName : Text)
  | leave
  | logout
  | disconnect
  deriving DecidableEq, Repr

/-- What a handler does once it is out of its room. -/
inductive LeaveCause where
  | leave
  | logout
  | disconnect
  deriving DecidableEq, Repr

/-- The section a handler enters next. -/
inductive RoomPhase where
  | idle
  | createAdd (room : RoomPtr)
  | joinFind (roomName : Text)
  | joinAdd (room : RoomPtr)
  | acceptFind (roomName : Text)
  | acceptLeave (room : RoomPtr)
  | acceptAdd (room : RoomPtr)
  | emptyTest (room : RoomPtr) (cause : LeaveCause)
  | deleteRoom (room : RoomPtr) (cause : LeaveCause)
  | deleteClient (cause : LeaveCause)
  | gone
  deriving DecidableEq, Repr

/-- After `room_delete_if_empty`. -/
def LeaveCause.next : LeaveCause → RoomPhase
  | .leave => .idle
  | .logout => .deleteClient .logout
  | .disconnect => .deleteClient .disconnect

/-- The section that takes a client out of its room before it is deleted, whatever the result. -/
def leaveSection (conn : Conn) (me : ClientPtr) (cause : LeaveCause) (w : World) :
    World × RoomPhase :=
  match (w.client me).currentRoom with
  | none => (w, cause.next)
  | some room =>
    let reg := (roomRemoveMember (some room) (some me) w.reg).2.setCurrentRoom me none
    ({ w with reg }.notice room (w.client me).clientName okLeft conn.fd, .emptyTest room cause)

/-- The first section of a command. -/
def startSection (conn : Conn) (me : ClientPtr) (w : World) (env : Env) :
    RoomCommand → World × RoomPhase
  | .create roomName =>
    match createRoom env (some roomName) (some me) w.db w.reg with
    | (.ok, some room, reg) => ({ w with reg }, .createAdd room)
    | (err, _, reg) => ({ w with reg }.replyErr conn (createRoomErr err), .idle)
  | .join roomName => (joinLeave conn me w, .joinFind roomName)
  | .accept roomName =>
    let name := (w.client me).clientName
    if !inviteFind env roomName name w.db then (w.replyErr conn errNotInvited, .idle)
    else ({ w with db := (inviteAccept env roomName name w.db).2 }, .acceptFind roomName)
  | .leave =>
    match (w.client me).currentRoom with
    | none => (w.replyErr conn errNotInRoom, .idle)
    | some room =>
      match roomRemoveMember (some room) (some me) w.reg with
      | (.ok, reg) =>
        let w₁ := { w with reg := reg.setCurrentRoom me none }.replyOk conn okLeft
        (w₁.notice room (w.client me).clientName okLeft conn.fd, .emptyTest room .leave)
      | (_, reg) => ({ w with reg }.replyErr conn errServerError, .idle)
  | .logout => leaveSection conn me .logout w
  | .disconnect => leaveSection conn me .disconnect w

/-- One section of the handler of a client; an idle handler may be given a command. -/
def roomSection (conn : Conn) (me : ClientPtr) (s : World × RoomPhase)
    (input : Env × Option RoomCommand) : World × RoomPhase :=
  let (w, phase) := s
  match phase with
  | .idle =>
    match input.2 with
    | none => (w, .idle)
    | some command => startSection conn me w input.1 command
  | .createAdd room =>
    match roomAddMember (some room) (some me) w.reg with
    | (.ok, reg) =>
      ({ w with reg := reg.setCurrentRoom me (some room) }.replyOk conn okCreated, .idle)
    | (err, reg) => ({ w with reg }.replyErr conn (createMemberErr err), .idle)
  | .joinFind roomName =>
    match findRoom (some roomName) w.reg with
    | (.ok, some room) => (w, .joinAdd room)
    | (err, _) => (w.replyErr conn (joinFindErr err), .idle)
  | .joinAdd room =>
    match roomAddMember (some room) (some me) w.reg with
    | (.ok, reg) =>
      (welcome conn me room { w with reg := reg.setCurrentRoom me (some room) }, .idle)
    | (err, reg) => ({ w with reg }.replyErr conn (joinErr err), .idle)
  | .acceptFind roomName =>
    match (findRoom (some roomName) w.reg).2 with
    | none => (w.replyErr conn errRoomNotFound, .idle)
    | some room => (w, .acceptLeave room)
  | .acceptLeave room => ({ w with reg := acceptLeave me w.reg }, .acceptAdd room)
  | .acceptAdd room =>
    let added := (roomAddMember (some room) (some me) w.reg).2
    (welcome conn me room { w with reg := added.setCurrentRoom me (some room) }, .idle)
  | .emptyTest room cause =>
    (w, if (w.reg.rooms room).members = [] then .deleteRoom room cause else cause.next)
  | .deleteRoom room cause => ({ w with reg := (deleteRoom (some room) w.reg).2 }, cause.next)
  | .deleteClient .disconnect =>
    let w₁ := { w with reg := (deleteClient (some me) w.reg).2 }
    ({ w₁ with conns := w₁.conns.remove conn.fd }, .gone)
  | .deleteClient _ =>
    let w₁ := { w with typing := presenceTypingStop (w.client me).clientName w.typing }
    let w₂ := w₁.replyOk conn replyLogout
    ({ w₂ with reg := (deleteClient (some me) w₂.reg).2 }.setMe conn none, .gone)
  | .gone => (w, .gone)

variable {env : Env} {w : World} {command : Cmd} {conn : Conn} {me : ClientPtr} {roomName : Text}

theorem run_idle (w : World) (n : ℕ) :
    run (roomSection conn me) (w, .idle) (List.replicate n (env, none)) = (w, .idle) := by
  induction n with
  | zero => rfl
  | succ n ih => exact ih

theorem run_gone (w : World) (n : ℕ) :
    run (roomSection conn me) (w, .gone) (List.replicate n (env, none)) = (w, .gone) := by
  induction n with
  | zero => rfl
  | succ n ih => exact ih

/-- The sections of one command, with nothing between them. -/
def sections (env : Env) (command : RoomCommand) (n : ℕ) : List (Env × Option RoomCommand) :=
  (env, some command) :: List.replicate n (env, none)

theorem create_uninterrupted (h₁ : command.arg1 = some roomName) :
    run (roomSection conn me) (w, .idle) (sections env (.create roomName) 1) =
      (handleCreate env command conn me w, .idle) := by
  unfold handleCreate
  simp only [h₁, sections, run_cons, List.replicate]
  rcases hcreate : createRoom env (some roomName) (some me) w.db w.reg with ⟨err, room, reg⟩
  cases err with
  | ok =>
    obtain ⟨r, rfl, -⟩ := createRoom_ok hcreate
    simp only [roomSection, startSection, hcreate, run_nil]
    rcases roomAddMember (some r) (some me) reg with ⟨err, reg'⟩
    cases err <;> rfl
  | _ => simp only [roomSection, startSection, hcreate, run_nil]

theorem join_uninterrupted (h₁ : command.arg1 = some roomName) :
    run (roomSection conn me) (w, .idle) (sections env (.join roomName) 2) =
      (handleJoin command conn me w, .idle) := by
  unfold handleJoin
  simp only [h₁, sections, run_cons, List.replicate, roomSection, startSection]
  rcases findRoom_cases (some roomName) (joinLeave conn me w).reg with
    ⟨r, hfind⟩ | hfind | hfind
  · simp only [hfind, run_nil]
    rcases roomAddMember (some r) (some me) (joinLeave conn me w).reg with ⟨err, reg⟩
    cases err <;> rfl
  · simp only [hfind, run_nil]
  · simp only [hfind, run_nil]

theorem accept_uninterrupted (h₁ : command.arg1 = some roomName) :
    run (roomSection conn me) (w, .idle) (sections env (.accept roomName) 3) =
      (handleAccept env command conn me w, .idle) := by
  have hstart : roomSection conn me (w, .idle) (env, some (.accept roomName)) =
      if !inviteFind env roomName (w.client me).clientName w.db then
        (w.replyErr conn errNotInvited, .idle)
      else ({ w with db := (inviteAccept env roomName (w.client me).clientName w.db).2 },
        .acceptFind roomName) := rfl
  rw [sections, run_cons, hstart]
  unfold handleAccept
  simp only [h₁]
  split_ifs
  · exact run_idle _ 3
  · rw [List.replicate_succ, run_cons]
    cases hfind : (findRoom (some roomName) w.reg).2 with
    | none =>
      simp only [roomSection, hfind]
      exact run_idle _ 2
    | some room =>
      simp only [roomSection, hfind]
      rfl

theorem run_emptyTest (env : Env) (conn : Conn) (me : ClientPtr) (w : World) (room : RoomPtr)
    (cause : LeaveCause) (n : ℕ) : ∃ k, n ≤ k ∧
      run (roomSection conn me) (w, .emptyTest room cause) (List.replicate (n + 2) (env, none)) =
      run (roomSection conn me) ({ w with reg := roomDeleteIfEmpty room w.reg }, cause.next)
        (List.replicate k (env, none)) := by
  unfold roomDeleteIfEmpty
  rw [List.replicate_succ, run_cons]
  simp only [roomSection]
  split_ifs
  · exact ⟨n, le_rfl, rfl⟩
  · exact ⟨n + 1, Nat.le_succ n, rfl⟩

theorem leave_uninterrupted :
    run (roomSection conn me) (w, .idle) (sections env .leave 2) =
      (handleLeave conn me w, .idle) := by
  unfold handleLeave
  rw [sections, run_cons]
  simp only [roomSection, startSection]
  cases (w.client me).currentRoom with
  | none => exact run_idle _ 2
  | some room =>
    simp only
    rcases roomRemoveMember (some room) (some me) w.reg with ⟨err, reg⟩
    cases err with
    | ok =>
      simp only
      obtain ⟨k, -, hrun⟩ := run_emptyTest env conn me
        ((({ w with reg := reg.setCurrentRoom me none }.replyOk conn okLeft).notice room
          (w.client me).clientName okLeft conn.fd)) room .leave 0
      rw [hrun]
      exact run_idle _ k
    | _ => exact run_idle _ 2

theorem run_leaveSection (env : Env) (conn : Conn) (me : ClientPtr) (w : World)
    (cause : LeaveCause) : ∃ k,
      run (roomSection conn me) (leaveSection conn me cause w) (List.replicate 3 (env, none)) =
      run (roomSection conn me) (leaveLastRoom conn me w, cause.next)
        (List.replicate (k + 1) (env, none)) := by
  unfold leaveSection leaveLastRoom
  cases (w.client me).currentRoom with
  | none => exact ⟨2, rfl⟩
  | some room =>
    simp only
    obtain ⟨k, hk, hrun⟩ := run_emptyTest env conn me
      ({ w with
        reg := (roomRemoveMember (some room) (some me) w.reg).2.setCurrentRoom me none }.notice
          room (w.client me).clientName okLeft conn.fd) room cause 1
    refine ⟨k - 1, ?_⟩
    rw [hrun, Nat.sub_add_cancel hk]

theorem leaveLastRoom_clientName (w : World) :
    ((leaveLastRoom conn me w).client me).clientName = (w.client me).clientName := by
  unfold leaveLastRoom
  split
  · rfl
  · simp [World.client, World.notice, roomRemoveMember_snd]

theorem logout_uninterrupted :
    run (roomSection conn me) (w, .idle) (sections env .logout 3) =
      (handleLogout conn me w, .gone) := by
  obtain ⟨k, hrun⟩ := run_leaveSection env conn me w .logout
  rw [sections, run_cons]
  refine hrun.trans ?_
  rw [List.replicate_succ, run_cons]
  simp only [LeaveCause.next, roomSection, leaveLastRoom_clientName]
  exact run_gone _ k

theorem disconnect_uninterrupted (hme : conn.me = some me) :
    run (roomSection conn me) (w, .idle) (sections env .disconnect 3) =
      (disconnectCleanup conn w, .gone) := by
  obtain ⟨k, hrun⟩ := run_leaveSection env conn me w .disconnect
  rw [sections, run_cons]
  refine hrun.trans ?_
  rw [List.replicate_succ, run_cons]
  unfold disconnectCleanup
  rw [hme]
  exact run_gone _ k

end ChatServer
