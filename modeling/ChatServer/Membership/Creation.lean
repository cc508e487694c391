import ChatServer.Membership.Entry

/-! # Rooms created

What CREATE and CREATE_PRIVATE do to the registry: a new room at the end of
the list, with its creator as admin and, if it was in no room, only member.
-/

namespace ChatServer

open Library World Roster

/-- The commands that create a room. -/
def CmdType.Creates (type : CmdType) : Prop := type = .create ∨ type = .createPrivate

/-- The registry with a new room, which its creator enters if it is in none and rooms may be. -/
def createdIn (env : Env) (n : Text) (me : ClientPtr) (r : RoomPtr) (db : Database)
    (reg : Registry) : Registry :=
  let reg' := { reg.setRoom r (newRoom env n me reg db) with roomList := reg.roomList ++ [r] }
  if (reg.clients me).currentRoom = none ∧ 0 < reg.maxMembers then
    (reg'.modifyRoom r fun room => { room with members := [me] }).setCurrentRoom me (some r)
  else reg'

variable {env : Env} {w : World} {e : Event} {conn : Conn} {me c : ClientPtr} {command : Cmd}
  {r : RoomPtr} {n : Text} {db : Database} {reg reg' : Registry}

/-- The creator is added to the new room if it is in none and rooms may have a member. -/
theorem roomAddMember_newRoom (env : Env) (n : Text) (me : ClientPtr) (r : RoomPtr)
    (db : Database) (reg : Registry) :
    let result := roomAddMember (some r) (some me)
      { reg.setRoom r (newRoom env n me reg db) with roomList := reg.roomList ++ [r] }
    (result.1 = .ok ↔ (reg.clients me).currentRoom = none ∧ 0 < reg.maxMembers) ∧
      (if result.1 = .ok then result.2.setCurrentRoom me (some r) else result.2) =
        createdIn env n me r db reg := by
  intro result
  rcases roomAddMember_cases { reg.setRoom r (newRoom env n me reg db) with
    roomList := reg.roomList ++ [r] } r me with ⟨h, hin⟩ | ⟨h, hout, hfull⟩ | ⟨h, hout, hfree⟩
  · have hin : (reg.clients me).currentRoom ≠ none := hin
    simp [result, h, createdIn, hin]
  · have hfull : reg.maxMembers = 0 := by simpa [newRoom] using hfull
    simp [result, h, createdIn, hfull]
  · have hout : (reg.clients me).currentRoom = none := hout
    have hfree : 0 < reg.maxMembers := by simpa [newRoom] using hfree
    simp [result, h, createdIn, hout, hfree, newRoom]

theorem handleCreate_reg (conn : Conn) (h₁ : command.arg1 = some n)
    (hcreate : createRoom env (some n) (some me) w.db w.reg = (.ok, some r, reg)) :
    (handleCreate env command conn me w).reg = createdIn env n me r w.db w.reg ∧
      (handleCreatePrivate env command conn me w).reg = createdIn env n me r w.db w.reg := by
  obtain ⟨r', hr', -, -, -, rfl⟩ := createRoom_ok hcreate
  obtain rfl := Option.some.inj hr'
  obtain ⟨-, hreg⟩ := roomAddMember_newRoom env n me r w.db w.reg
  unfold handleCreate handleCreatePrivate
  rcases hadd : roomAddMember (some r) (some me) _ with ⟨err, reg'⟩
  rw [hadd] at hreg
  simp only [h₁, hcreate, hadd]
  cases err with
  | ok =>
    rw [if_pos rfl] at hreg
    exact ⟨hreg, hreg⟩
  | _ =>
    rw [if_neg (by simp)] at hreg
    exact ⟨hreg, hreg⟩

theorem handleCreate_reg_of_err (conn : Conn)
    (hcreate : (createRoom env command.arg1 (some me) w.db w.reg).1 ≠ .ok) :
    (handleCreate env command conn me w).reg = w.reg ∧
      (handleCreatePrivate env command conn me w).reg = w.reg := by
  unfold handleCreate handleCreatePrivate
  cases h₁ : command.arg1 with
  | none => exact ⟨rfl, rfl⟩
  | some n =>
    rw [h₁] at hcreate
    rcases hresult : createRoom env (some n) (some me) w.db w.reg with ⟨err, room, reg⟩
    rw [hresult] at hcreate
    obtain rfl := createRoom_err hcreate hresult
    cases err <;> simp [hresult] at hcreate ⊢

section Step

variable (env)

theorem step_created (h : Commands w e conn me command) (ht : command.type.Creates)
    (h₁ : command.arg1 = some n)
    (hcreate : createRoom env (some n) (some me) w.db w.reg = (.ok, some r, reg)) :
    (step w (env, e)).reg = createdIn env n me r w.db w.reg := by
  obtain ⟨hpublic, hprivate⟩ := handleCreate_reg (w :=
      { w with out := [], broadcasts := [] }) conn h₁ hcreate
  rcases ht with ht | ht
  · rw [step_eq_dispatch env h (by simp [ht]), dispatch, ht]
    exact hpublic
  · rw [step_eq_dispatch env h (by simp [ht]), dispatch, ht]
    exact hprivate

theorem step_not_created (h : Commands w e conn me command) (ht : command.type.Creates)
    (hcreate : (createRoom env command.arg1 (some me) w.db w.reg).1 ≠ .ok) :
    (step w (env, e)).reg = w.reg := by
  obtain ⟨hpublic, hprivate⟩ := handleCreate_reg_of_err (w :=
      { w with out := [], broadcasts := [] }) conn hcreate
  rcases ht with ht | ht
  · rw [step_eq_dispatch env h (by simp [ht]), dispatch, ht]
    exact hpublic
  · rw [step_eq_dispatch env h (by simp [ht]), dispatch, ht]
    exact hprivate

end Step

theorem createdIn_roomList : (createdIn env n me r db reg).roomList = reg.roomList ++ [r] := by
  unfold createdIn
  split_ifs <;> rfl

theorem createdIn_room (hn : badLength maxRoomNameLen n = false) :
    ((createdIn env n me r db reg).rooms r).roomName = n ∧
    ((createdIn env n me r db reg).rooms r).adminClient = some me ∧
    ((createdIn env n me r db reg).rooms r).members =
      if (reg.clients me).currentRoom = none ∧ 0 < reg.maxMembers then [me] else [] := by
  unfold createdIn
  split_ifs <;>
    simp [newRoom, strncpy_of_not_badLength hn]

/-- A command of a client that creates a room under a name. -/
def Creates (env : Env) (w : World) (e : Event) (me : ClientPtr) (command : Cmd) (n : Text)
    (r : RoomPtr) : Prop :=
  ∃ conn reg, Commands w e conn me command ∧ command.type.Creates ∧ command.arg1 = some n ∧
    createRoom env (some n) (some me) w.db w.reg = (.ok, some r, reg)

theorem mem_step_roomList (hr : r ∈ (step w (env, e)).reg.roomList) :
    r ∈ w.reg.roomList ∨ ∃ me command n, Creates env w e me command n r := by
  rcases (step_leads w env e).mem_rooms hr with hr' | ⟨me, n, cap, hcreate⟩
  · exact .inl hr'
  · obtain ⟨conn, command, hcmd, ht, h₁⟩ := creates_of_does hcreate
    rcases hresult : createRoom env (some n) (some me) w.db w.reg with ⟨err, room, reg⟩
    by_cases herr : err = .ok
    · subst herr
      obtain ⟨r', rfl, -⟩ := createRoom_ok hresult
      rw [step_created env hcmd ht h₁ hresult, createdIn_roomList, List.mem_append] at hr
      refine hr.imp_right fun hr => ?_
      obtain rfl := List.mem_singleton.mp hr
      exact ⟨me, command, n, conn, reg, hcmd, ht, h₁, hresult⟩
    · rw [step_not_created env hcmd ht (by rw [h₁, hresult]; exact herr)] at hr
      exact .inl hr

namespace Creates

theorem commands (h : Creates env w e me command n r) : ∃ conn, Commands w e conn me command := by
  obtain ⟨conn, reg, hcmd, -⟩ := h
  exact ⟨conn, hcmd⟩

theorem new (h : Creates env w e me command n r) : r ∉ w.reg.roomList ∧
    (∀ r' ∈ w.reg.roomList, (w.room r').roomName ≠ n) ∧ badLength maxRoomNameLen n = false := by
  obtain ⟨conn, reg, -, -, -, hcreate⟩ := h
  obtain ⟨r', hr', hnew, hname, hn, -⟩ := createRoom_ok hcreate
  obtain rfl := Option.some.inj hr'
  exact ⟨hnew, hname, hn⟩

theorem reg_eq (h : Creates env w e me command n r) :
    (step w (env, e)).reg = createdIn env n me r w.db w.reg := by
  obtain ⟨conn, reg, hcmd, ht, h₁, hcreate⟩ := h
  exact step_created env hcmd ht h₁ hcreate

theorem mem_roomList (h : Creates env w e me command n r) :
    r ∈ (step w (env, e)).reg.roomList := by
  rw [h.reg_eq, createdIn_roomList]
  exact List.mem_append_right _ (List.mem_singleton_self r)

theorem roomName (h : Creates env w e me command n r) :
    ((step w (env, e)).room r).roomName = n := by
  rw [World.room, h.reg_eq]
  exact (createdIn_room h.new.2.2).1

theorem admin (h : Creates env w e me command n r) :
    ((step w (env, e)).room r).adminClient = some me := by
  rw [World.room, h.reg_eq]
  exact (createdIn_room h.new.2.2).2.1

theorem members (h : Creates env w e me command n r) :
    ((step w (env, e)).room r).members =
      if (w.client me).currentRoom = none ∧ 0 < w.reg.maxMembers then [me] else [] := by
  rw [World.room, h.reg_eq]
  exact (createdIn_room h.new.2.2).2.2

end Creates

end ChatServer
