import ChatServer.Membership.Occupied
import ChatServer.Presence.Notices

/-! # Presence notices and membership

A member of a room who applies the notices it receives to the members it knew
has a true view of the room, as long as every change of the room is announced
to it. JOIN and ACCEPT take a client out of its old room without a word, BAN
evicts without one, and ACCEPT and the end of a login announce changes that
did not happen.
-/

namespace ChatServer

open Library World Roster

/-- The members of a room besides a given one. -/
def others (c : ClientPtr) (r : RoomPtr) (w : World) : List ClientPtr :=
  (w.room r).members.filter (· ≠ c)

def othersNames (c : ClientPtr) (r : RoomPtr) (w : World) : Multiset Text :=
  ((others c r w).map fun d => (w.client d).clientName : List Text)

/-- What a member hears about its room in a step. -/
def heardBy (c : ClientPtr) (r : RoomPtr) (w w' : World) : List (Change Text) :=
  heard (w.client c).socketFd (w.room r).roomName w'.out

/-- Who has joined and who has gone, besides a given member. -/
def changesFor (c : ClientPtr) (r : RoomPtr) (w w' : World) : List (Change Text) :=
  Change.between (fun d => (w.client d).clientName) (others c r w) (others c r w')

/-- A member hears of every change once, and of nothing else. -/
def Announced (c : ClientPtr) (r : RoomPtr) (w w' : World) : Prop :=
  heardBy c r w w' = changesFor c r w w'

/-- What a member knows of its room, from a view at the start and the notices of a run. -/
def viewAfter (c : ClientPtr) (r : RoomPtr) :
    Multiset Text → World → List (Env × Event) → Multiset Text
  | view, _, [] => view
  | view, w, input :: inputs =>
    viewAfter c r ((heardBy c r w (step w input)).foldl Change.apply view) (step w input) inputs

/-- A member of a live room. -/
def MemberOf (c : ClientPtr) (r : RoomPtr) (w : World) : Prop :=
  r ∈ w.reg.roomList ∧ c ∈ (w.room r).members

/-- An event whose notices mislead a member of a room about the others. -/
inductive Misleads (c : ClientPtr) (r : RoomPtr) (w : World) (input : Env × Event) : Prop
  | join {conn : Conn} {d : ClientPtr} {command : Cmd} (h : Commands w input.2 conn d command)
      (ht : command.type = .join) (h₁ : command.arg1 ≠ none) (inside : d ∈ (w.room r).members)
      (other : d ≠ c)
  | accept {conn : Conn} {d : ClientPtr} {command : Cmd} {room : RoomPtr}
      (h : Commands w input.2 conn d command) (ht : command.type = .accept)
      (accepted : roomAccepted input.1 command d w = some room)
      (inside : d ∈ (w.room r).members) (other : d ≠ c)
  | acceptFull {conn : Conn} {d : ClientPtr} {command : Cmd}
      (h : Commands w input.2 conn d command) (ht : command.type = .accept)
      (accepted : roomAccepted input.1 command d w = some r)
      (full : (w.room r).memberCapacity ≤ ((acceptLeave d w.reg).rooms r).members.length)
      (other : d ≠ c)
  | ban {conn : Conn} {d target : ClientPtr} {command : Cmd} {name : Text}
      (h : Commands w input.2 conn d command) (ht : command.type = .ban)
      (inside : (w.client d).currentRoom = some r)
      (allowed : permissionCheck input.1 (w.room r).roomName (w.client d).clientName .ban w.db)
      (h₁ : command.arg1 = some name) (sql : input.1.sql .banAdd = .done)
      (found : (findClient (some name) w.reg).2 = some target)
      (member : target ∈ (w.room r).members) (other : target ≠ c)
  | gone {d : ClientPtr} (h : LogsOut w input d) (seat : (w.client d).currentRoom = some r)
      (unlisted : d ∉ (w.room r).members)

/-- What is known of a member of a room in a reachable state. -/
structure Watches (c : ClientPtr) (r : RoomPtr) (w : World) : Prop where
  sound : w.roster.Sound
  vacant : w.roster.Vacant
  names : ∀ d, (w.client d).clientName.length < 32
  title : (w.room r).roomName.length < 32
  member : MemberOf c r w

variable {env : Env} {w w' w₁ : World} {e : Event} {conn : Conn} {c d : ClientPtr}
  {r room q : RoomPtr} {command : Cmd} {action n : Text} {ex : Fd}

/-! ## Changes of a member list -/

theorem changesFor_eq_nil (h : ∀ d, d ∈ (w'.room r).members ↔ d ∈ (w.room r).members) :
    changesFor c r w w' = [] :=
  Change.between_eq_nil _ fun d => by simp [others, h]

theorem changesFor_of_gone (hn : (w.room r).members.Nodup) (hd : d ∈ (w.room r).members)
    (hne : d ≠ c) (h : ∀ x, x ∈ (w'.room r).members ↔ x ≠ d ∧ x ∈ (w.room r).members) :
    changesFor c r w w' = [.gone (w.client d).clientName] :=
  Change.between_of_gone _ (hn.filter _) (by simp [others, hd, hne]) fun x => by
    simp [others, h, and_assoc]

theorem changesFor_erase (hn : (w.room r).members.Nodup) (hd : d ∈ (w.room r).members)
    (hne : d ≠ c) (h : (w'.room r).members = (w.room r).members.erase d) :
    changesFor c r w w' = [.gone (w.client d).clientName] :=
  changesFor_of_gone hn hd hne fun x => by rw [h, hn.mem_erase_iff]

theorem changesFor_concat (hd : d ∉ (w.room r).members) (hne : d ≠ c)
    (h : (w'.room r).members = (w.room r).members ++ [d]) :
    changesFor c r w w' = [.joined (w.client d).clientName] := by
  have hothers : others c r w' = others c r w ++ [d] := by
    simp [others, h, List.filter_append, hne]
  rw [changesFor, hothers]
  exact Change.between_concat _ (by simp [others, hd])

/-! ## What has to be announced -/

theorem announced_erase_iff (hn : (w.room r).members.Nodup) (hne : d ≠ c) {told : Prop}
    [Decidable told] (hm : (w'.room r).members = (w.room r).members.erase d)
    (hh : heardBy c r w w' = if told then [.gone (w.client d).clientName] else []) :
    Announced c r w w' ↔ (told ↔ d ∈ (w.room r).members) := by
  rw [Announced, hh]
  by_cases hd : d ∈ (w.room r).members
  · rw [changesFor_erase hn hd hne hm]
    split_ifs with htold
    · exact iff_of_true rfl (iff_of_true htold hd)
    · exact iff_of_false (by simp) fun h => htold (h.mpr hd)
  · rw [changesFor_eq_nil fun x => by rw [hm, List.erase_of_not_mem hd]]
    split_ifs with htold
    · exact iff_of_false (by simp) fun h => hd (h.mp htold)
    · exact iff_of_true rfl (iff_of_false htold hd)

theorem announced_move_iff (hn : (w.room r).members.Nodup) (hne : d ≠ c) {entered welcomed : Prop}
    [Decidable entered] [Decidable welcomed]
    (hm : (w'.room r).members = (w.room r).members.erase d ++ if entered then [d] else [])
    (hh : heardBy c r w w' = if welcomed then [.joined (w.client d).clientName] else [])
    (himp : entered → welcomed) :
    Announced c r w w' ↔ d ∉ (w.room r).members ∧ (welcomed → entered) := by
  rw [Announced, hh]
  by_cases hd : d ∈ (w.room r).members
  · refine iff_of_false ?_ fun h => h.1 hd
    by_cases hentered : entered
    · have hsame : ∀ x, x ∈ (w'.room r).members ↔ x ∈ (w.room r).members := by
        intro x
        rw [hm, if_pos hentered, List.mem_append, hn.mem_erase_iff, List.mem_singleton]
        constructor
        · rintro (⟨-, hx⟩ | rfl)
          · exact hx
          · exact hd
        · intro hx
          rcases eq_or_ne x d with rfl | hxd
          · exact .inr rfl
          · exact .inl ⟨hxd, hx⟩
      rw [changesFor_eq_nil hsame, if_pos (himp hentered)]
      simp
    · rw [changesFor_erase hn hd hne (by rw [hm, if_neg hentered, List.append_nil])]
      split_ifs <;> simp
  · rw [List.erase_of_not_mem hd] at hm
    rw [and_iff_right hd]
    by_cases hentered : entered
    · rw [changesFor_concat hd hne (by rw [hm, if_pos hentered]), if_pos (himp hentered)]
      exact iff_of_true rfl fun _ => hentered
    · rw [changesFor_eq_nil fun x => by rw [hm, if_neg hentered, List.append_nil]]
      split_ifs with hwelcomed
      · exact iff_of_false (by simp) fun h => hentered (h hwelcomed)
      · exact iff_of_true rfl fun h => absurd h hwelcomed

theorem announced_of_same (hm : ∀ d, d ∈ (w'.room r).members ↔ d ∈ (w.room r).members)
    (hh : heardBy c r w w' = []) : Announced c r w w' := by
  rw [Announced, hh, changesFor_eq_nil hm]

/-! ## The member who watches -/

namespace Watches

theorem listed (h : Watches c r w) : c ∈ w.reg.clientList :=
  (h.sound.seated.of_member h.member.1 h.member.2).1

theorem nodup (h : Watches c r w) : (w.room r).members.Nodup :=
  h.sound.seated.members_nodup h.member.1

theorem seat (h : Watches c r w) : (w.client c).currentRoom = some r :=
  (h.sound.seated.of_member h.member.1 h.member.2).2

theorem mem_iff (h : Watches c r w) : c ∈ (w.room q).members ↔ q = r := by
  constructor
  · intro hm
    by_cases hq : q ∈ w.reg.roomList
    · have hseat : (w.client c).currentRoom = some q := (h.sound.seated.of_member hq hm).2
      rw [h.seat] at hseat
      exact (Option.some.inj hseat).symm
    · have hnil : (w.room q).members = [] := h.vacant q hq
      rw [hnil] at hm
      cases hm
  · rintro rfl
    exact h.member.2

theorem not_mem (h : Watches c r w) (hd : (w.client d).currentRoom ≠ some r) :
    d ∉ (w.room r).members := h.sound.seated.not_mem_of_location h.member.1 hd

theorem socketFd_ne (h : Watches c r w) (hd : d ∈ w.reg.clientList) (hne : d ≠ c) :
    (w.client d).socketFd ≠ (w.client c).socketFd := by
  intro heq
  have hconn : w.roster.conns (w.client c).socketFd = some (some c) :=
    h.sound.linked.conn_of_mem h.listed
  have hconn' : w.roster.conns (w.client d).socketFd = some (some d) :=
    h.sound.linked.conn_of_mem hd
  rw [heq, hconn] at hconn'
  exact hne (Option.some.inj (Option.some.inj hconn')).symm

end Watches

/-! ## Going with a notice -/

theorem acceptLeave_client (reg : Registry) (d x : ClientPtr) : ∃ seat,
    (acceptLeave d reg).clients x = { reg.clients x with currentRoom := seat } := by
  unfold acceptLeave
  split
  · exact ⟨_, rfl⟩
  · rw [roomRemoveMember_snd]
    rcases eq_or_ne x d with rfl | hne
    · exact ⟨_, by simp; rfl⟩
    · exact ⟨_, by simp [hne]; rfl⟩

theorem acceptLeave_socketFd (reg : Registry) (d x : ClientPtr) :
    ((acceptLeave d reg).clients x).socketFd = (reg.clients x).socketFd := by
  obtain ⟨seat, h⟩ := acceptLeave_client reg d x
  rw [h]

@[simp] theorem acceptLeave_clientList (reg : Registry) (d : ClientPtr) :
    (acceptLeave d reg).clientList = reg.clientList := by
  unfold acceptLeave
  split
  · rfl
  · rw [roomRemoveMember_snd]
    rfl

theorem acceptLeave_eq {reg : Registry} (hq : (reg.clients d).currentRoom = some q) :
    acceptLeave d reg = (roomRemoveMember (some q) (some d) reg).2.setCurrentRoom d none := by
  unfold acceptLeave
  rw [hq]

theorem heard_departure (hw : Watches c r w) (hne : d ≠ c) (hex : (w.client c).socketFd ≠ ex)
    (haction : action = okLeft ∨ action = okKicked) :
    heard (w.client c).socketFd (w.room r).roomName
        (noticeTo q (w.client d).clientName action ex (acceptLeave d w.reg)) =
      if q = r then [.gone (w.client d).clientName] else [] := by
  have hleads : Leads (fun _ => True) w.roster (rosterOf (acceptLeave d w.reg) w.conns) :=
    acceptLeave_leads fun _ => trivial
  have hfd : (w.client c).socketFd = ((acceptLeave d w.reg).clients c).socketFd :=
    (acceptLeave_socketFd w.reg d c).symm
  have hlisted : c ∈ (acceptLeave d w.reg).clientList := by
    rw [acceptLeave_clientList]
    exact hw.listed
  have hmem : c ∈ ((acceptLeave d w.reg).rooms q).members ↔ q = r := by
    rw [← hw.mem_iff, acceptLeave_room]
    simp only
    split_ifs
    · exact List.mem_erase_of_ne hne.symm
    · exact Iff.rfl
  rw [hfd] at hex ⊢
  rw [heard_noticeTo (hleads.sound hw.sound) (hleads.vacant hw.vacant) hlisted,
    acceptLeave_roomName]
  by_cases hq : q = r
  · rw [if_pos ⟨hmem.mpr hq, hex⟩, if_pos hq]
    subst hq
    have hspace : ' ' ∉ action := by rcases haction with rfl | rfl <;> decide
    have hlen : action.length < 32 := by rcases haction with rfl | rfl <;> decide
    have hread := presenceOf_formatNotice (hw.names d) hlen hw.title hspace
    rw [World.room] at hread ⊢
    rw [hread]
    rcases haction with rfl | rfl <;> rfl
  · rw [if_neg fun h => hq (hmem.mp h.1), if_neg hq]

theorem members_of_departure (hw : Watches c r w)
    (hreg : w'.reg.rooms = (acceptLeave d w.reg).rooms) :
    (w'.room r).members = (w.room r).members.erase d := by
  rw [World.room, hreg]
  exact acceptLeave_members hw.sound hw.member.1

/-! ## LEAVE, KICK, and the end of a login -/

theorem roomRemoveMember_fst {reg : Registry} :
    (roomRemoveMember (some q) (some d) reg).1 = .ok ↔ d ∈ (reg.rooms q).members := by
  simp only [roomRemoveMember]
  split_ifs with h
  · exact iff_of_true rfl h
  · exact iff_of_false (by simp) h

theorem Watches.eq_of_seat (hw : Watches c r w) (hcur : (w.client d).currentRoom = some q)
    (hd : d ∈ (w.room r).members) : q = r := by
  have hseat : (w.client d).currentRoom = some r := (hw.sound.seated.of_member hw.member.1 hd).2
  rw [hcur] at hseat
  exact Option.some.inj hseat

theorem seat_iff_mem (hw : Watches c r w) (hcur : (w.client d).currentRoom = some q)
    (hq : d ∈ (w.room q).members) : q = r ↔ d ∈ (w.room r).members :=
  ⟨fun h => h ▸ hq, hw.eq_of_seat hcur⟩

theorem handleLeave_members (hw : Watches c r w) :
    ((handleLeave conn d w).room r).members = (w.room r).members.erase d := by
  unfold handleLeave
  split
  · rename_i hcur
    exact (List.erase_of_not_mem (hw.not_mem (by simp [hcur]))).symm
  · rename_i q hcur
    have hok := @roomRemoveMember_fst d q w.reg
    have hleave := acceptLeave_eq hcur
    split
    · rename_i reg hrem
      rw [hrem] at hleave
      refine members_of_departure hw ?_
      rw [hleave]
      exact roomDeleteIfEmpty_rooms
    · rename_i err reg hne' hrem
      obtain rfl := roomRemoveMember_err hne' hrem
      rw [hrem] at hok
      refine (List.erase_of_not_mem fun hd => hne' (hok.mpr ?_)).symm
      rw [hw.eq_of_seat hcur hd]
      exact hd

/-- A member that leaves its room is heard of; a client that is not listed is not let go. -/
theorem handleLeave_heard (hw : Watches c r w) (hex : (w.client c).socketFd ≠ conn.fd)
    (hne : d ≠ c) :
    heard (w.client c).socketFd (w.room r).roomName (handleLeave conn d w).out =
      heard (w.client c).socketFd (w.room r).roomName w.out ++
        if d ∈ (w.room r).members then [.gone (w.client d).clientName] else [] := by
  unfold handleLeave
  split
  · rename_i hcur
    rw [if_neg (hw.not_mem (by simp [hcur])), List.append_nil]
    exact heard_of_reports reports_err
  · rename_i q hcur
    have hok := @roomRemoveMember_fst d q w.reg
    have hleave := acceptLeave_eq hcur
    split
    · rename_i reg hrem
      rw [hrem] at hok hleave
      simp only [notice_eq, emit_out]
      rw [heard_append, heard_of_reports reports_ok, replyOk_eq, reply_eq, emit_reg, ← hleave,
        heard_departure hw hne hex (.inl rfl)]
      congr 1
      exact if_congr (seat_iff_mem hw hcur (hok.mp rfl)) rfl rfl
    · rename_i err reg hne' hrem
      obtain rfl := roomRemoveMember_err hne' hrem
      rw [hrem] at hok
      rw [if_neg fun hd => hne' (hok.mpr (by rw [hw.eq_of_seat hcur hd]; exact hd)),
        List.append_nil]
      exact heard_of_reports reports_err

theorem leaveLastRoom_members (hw : Watches c r w) :
    ((leaveLastRoom conn d w).room r).members = (w.room r).members.erase d := by
  unfold leaveLastRoom
  split
  · rename_i hcur
    exact (List.erase_of_not_mem (hw.not_mem (by simp [hcur]))).symm
  · rename_i q hcur
    refine members_of_departure hw ?_
    rw [acceptLeave_eq hcur]
    exact roomDeleteIfEmpty_rooms

theorem leaveLastRoom_heard (hw : Watches c r w) (hex : (w.client c).socketFd ≠ conn.fd)
    (hne : d ≠ c) :
    heard (w.client c).socketFd (w.room r).roomName (leaveLastRoom conn d w).out =
      heard (w.client c).socketFd (w.room r).roomName w.out ++
        if (w.client d).currentRoom = some r then [.gone (w.client d).clientName] else [] := by
  unfold leaveLastRoom
  split
  · rename_i hcur
    rw [hcur, if_neg (by simp), List.append_nil]
  · rename_i q hcur
    simp only [notice_eq, emit_out]
    rw [heard_append, ← acceptLeave_eq hcur, heard_departure hw hne hex (.inl rfl)]
    congr 1
    exact if_congr (by simp [hcur]) rfl rfl

theorem changesFor_of_erase (hw : Watches c r w) (hne : d ≠ c)
    (hm : (w'.room r).members = (w.room r).members.erase d) : changesFor c r w w' =
      if d ∈ (w.room r).members then [.gone (w.client d).clientName] else [] := by
  split_ifs with hd
  · exact changesFor_erase hw.nodup hd hne hm
  · exact changesFor_eq_nil fun x => by rw [hm, List.erase_of_not_mem hd]

theorem Watches.ne_of_mem_erase (hw : Watches c r w) (h : c ∈ (w.room r).members.erase d) :
    d ≠ c := (hw.nodup.mem_erase_iff.mp h).1.symm

theorem handleKick_cases (command : Cmd) (conn : Conn) (d : ClientPtr) (w : World) :
    (∃ code, handleKick command conn d w = w.replyErr conn code) ∨
      ∃ q target, target ∈ w.reg.clientList ∧ (w.client target).currentRoom = some q ∧
        target ∈ (w.room q).members ∧
        (handleKick command conn d w).reg.rooms = (acceptLeave target w.reg).rooms ∧
        (handleKick command conn d w).out = w.out ++
          [⟨(w.client target).socketFd, .rawSend,
            { bytes := formatErrReply maxLineLen okKicked }⟩] ++
          noticeTo q (w.client target).clientName okKicked (w.client target).socketFd
            (acceptLeave target w.reg) ++
          [⟨conn.fd, conn.channel, { bytes := formatOkReply maxLineLen okKicked }⟩] := by
  unfold handleKick
  split
  · exact .inl ⟨_, rfl⟩
  · rename_i q hcur
    split_ifs
    · exact .inl ⟨_, rfl⟩
    · split
      · exact .inl ⟨_, rfl⟩
      · split_ifs
        · exact .inl ⟨_, rfl⟩
        · split
          · exact .inl ⟨_, rfl⟩
          · rename_i target htarget
            obtain ⟨hlisted, rfl⟩ := findClient_some htarget
            split_ifs with hin
            · exact .inl ⟨_, rfl⟩
            · have hin : (w.client target).currentRoom = some q := not_not.mp hin
              have hok := @roomRemoveMember_fst target q w.reg
              split
              · rename_i reg hrem
                rw [hrem] at hok
                refine .inr ⟨q, target, hlisted, hin, hok.mp rfl, ?_, ?_⟩
                · rw [acceptLeave_eq hin, hrem]
                  exact roomDeleteIfEmpty_rooms
                · rw [acceptLeave_eq hin, hrem]
                  simp [World.client]
              · rename_i err reg hne' hrem
                obtain rfl := roomRemoveMember_err hne' hrem
                exact .inl ⟨_, rfl⟩

theorem handleKick_heard (hw : Watches c r w)
    (hstay : c ∈ ((handleKick command conn d w).room r).members) :
    heard (w.client c).socketFd (w.room r).roomName (handleKick command conn d w).out =
      heard (w.client c).socketFd (w.room r).roomName w.out ++
        changesFor c r w (handleKick command conn d w) := by
  rcases handleKick_cases command conn d w with
    ⟨code, heq⟩ | ⟨q, target, hlisted, hin, hmem, hrooms, hout⟩
  · have hnil : changesFor c r w (w.replyErr conn code) = [] := changesFor_eq_nil fun _ => Iff.rfl
    rw [heq, heard_of_reports reports_err, hnil, List.append_nil]
  · have hm := members_of_departure hw hrooms
    rw [hm] at hstay
    have hne := hw.ne_of_mem_erase hstay
    have hex : (w.client c).socketFd ≠ (w.client target).socketFd :=
      (hw.socketFd_ne hlisted hne).symm
    have hkicked (line : Line) : heard (w.client c).socketFd (w.room r).roomName
        [⟨(w.client target).socketFd, .rawSend, line⟩] = [] :=
      heard_of_ne (by simpa using hex.symm)
    have hanswer : heard (w.client c).socketFd (w.room r).roomName
        [⟨conn.fd, conn.channel, { bytes := formatOkReply maxLineLen okKicked }⟩] = [] :=
      heard_eq_nil fun o ho _ => by
        rw [List.mem_singleton.mp ho]
        exact presenceOf_of_not_notice (isStatus_lineOf (by decide)).not_notice
    rw [changesFor_of_erase hw hne hm, hout, heard_append, heard_append, heard_append, hkicked,
      heard_departure hw hne hex (.inr rfl), hanswer, List.append_nil, List.append_nil]
    congr 1
    exact if_congr (seat_iff_mem hw hin hmem) rfl rfl

/-! ## Notices of other actions, and evictions without a notice -/

theorem heard_emit_statuses {outs : List Output} (h : ∀ o ∈ outs, IsStatus o.line.bytes) :
    heard fd roomName (w.emit outs).out = heard fd roomName w.out := by
  have hnil : heard fd roomName outs = [] :=
    heard_eq_nil fun o ho _ => presenceOf_of_not_notice (h o ho).not_notice
  rw [emit_out, heard_append, hnil, List.append_nil]

theorem heard_other_notice {reg : Registry} {conns : Conns} {admin : RoomPtr → Option ClientPtr}
    (hw : Watches c r w) (hkeep : rosterOf reg conns = { w.roster with admin })
    (hspace : ' ' ∉ action) (hlen : action.length < 32)
    (hother : changeOf action (w.client d).clientName = none) :
    heard (w.client c).socketFd (w.room r).roomName
      (noticeTo q (w.client d).clientName action ex reg) = [] := by
  obtain ⟨⟨h₁, h₂, h₃⟩, ⟨h₄, h₅, h₆, h₇⟩⟩ := hw.sound
  have hs : (rosterOf reg conns).Sound := by
    rw [hkeep]
    exact ⟨⟨h₁, h₂, h₃⟩, ⟨h₄, h₅, h₆, h₇⟩⟩
  have hv : (rosterOf reg conns).Vacant := by
    rw [hkeep]
    exact hw.vacant
  have hlist : reg.clientList = w.reg.clientList := congrArg Roster.clients hkeep
  have hfd : (reg.clients c).socketFd = (w.client c).socketFd :=
    congrFun (congrArg Roster.address hkeep) c
  have hmembers : (reg.rooms q).members = (w.room q).members :=
    congrFun (congrArg Roster.members hkeep) q
  have htitle : (reg.rooms q).roomName = (w.room q).roomName :=
    congrFun (congrArg Roster.title hkeep) q
  rw [← hfd, heard_noticeTo hs hv (hlist ▸ hw.listed), htitle]
  split_ifs with hmem
  · rw [hmembers, hw.mem_iff] at hmem
    obtain ⟨rfl, -⟩ := hmem
    rw [presenceOf_formatNotice (hw.names d) hlen hw.title hspace, hother]
    rfl
  · rfl

theorem handleStatus_heard (hw : Watches c r w) :
    heard (w.client c).socketFd (w.room r).roomName (handleStatus command conn d w).out =
      heard (w.client c).socketFd (w.room r).roomName w.out := by
  unfold handleStatus
  split
  · exact heard_of_reports reports_err
  · rename_i word h₁
    split
    · exact heard_of_reports reports_err
    · rename_i status hstatus
      have hword : word ∈ [statusOnline, statusAway, statusBusy] := by
        unfold parseStatus at hstatus
        split_ifs at hstatus <;> simp [*]
      obtain ⟨hspace, hlen, h₁, h₂, h₃⟩ :=
        (by decide : ∀ word ∈ [statusOnline, statusAway, statusBusy], ' ' ∉ word ∧
          word.length < 32 ∧ word ≠ okJoined ∧ word ≠ okLeft ∧ word ≠ okKicked) word hword
      have hkeep : rosterOf (w.reg.modifyClient d fun client => { client with status }) w.conns =
          { w.roster with admin := w.roster.admin } :=
        rosterOf_modifyClient fun _ => ⟨rfl, rfl, rfl⟩
      have hother : changeOf word (w.client d).clientName = none := by simp [changeOf, h₁, h₂, h₃]
      have hname : World.client { w with reg := (w.reg.modifyClient d fun client =>
          { client with status }) } d = { w.client d with status } := by
        simp [World.client]
      simp only
      split
      · exact heard_of_reports reports_ok
      · split_ifs
        · exact heard_of_reports reports_ok
        · rw [notice_eq, emit_out, heard_append, heard_of_reports reports_ok, replyOk_eq,
            reply_eq, emit_reg]
          change _ ++ heard _ _ (noticeTo _ (World.client { w with reg := (w.reg.modifyClient d
            fun client => { client with status }) } d).clientName _ _ _) = _
          rw [hname]
          change _ ++ heard _ _ (noticeTo _ (w.client d).clientName _ _ _) = _
          rw [heard_other_notice hw hkeep hspace hlen hother, List.append_nil]

theorem handlePromote_heard (hw : Watches c r w) :
    heard (w.client c).socketFd (w.room r).roomName (handlePromote command conn d w).out =
      heard (w.client c).socketFd (w.room r).roomName w.out := by
  unfold handlePromote
  split
  · exact heard_of_reports reports_err
  · rename_i q hcur
    split_ifs
    · exact heard_of_reports reports_err
    · split
      · exact heard_of_reports reports_err
      · split
        · exact heard_of_reports reports_err
        · rename_i target htarget
          obtain ⟨-, rfl⟩ := findClient_some htarget
          split_ifs
          · exact heard_of_reports reports_err
          · have hkeep : rosterOf (w.reg.setAdmin q target) w.conns =
                { w.roster with admin := Function.update w.roster.admin q (some target) } :=
              rosterOf_promote
            have hstatus : IsStatus (formatOkReply maxLineLen okPromoted) :=
              isStatus_lineOf (by decide)
            have hquiet : heard (w.client c).socketFd (w.room r).roomName
                (noticeTo q (w.client target).clientName okPromoted (-1)
                  (w.reg.setAdmin q target)) = [] :=
              heard_other_notice hw hkeep (by decide) (by decide)
                (by rw [changeOf, if_neg (by decide), if_neg (by decide)])
            rw [notice_eq, emit_out, heard_append, rawSend_eq, emit_reg,
              heard_emit_statuses (by simpa using hstatus)]
            exact (congrArg _ hquiet).trans (List.append_nil _)

/-- No notice tells of an eviction. -/
theorem handleBan_heard :
    heard fd roomName (handleBan env command conn d w).out = heard fd roomName w.out := by
  have hstatus : IsStatus (formatErrReply maxLineLen okBanned) := isStatus_lineOf (by decide)
  unfold handleBan
  split
  · exact heard_of_reports reports_err
  · simp only
    split_ifs
    · exact heard_of_reports reports_err
    · split
      · exact heard_of_reports reports_err
      · split
        · refine (heard_of_reports reports_ok).trans ?_
          unfold evictBanned
          split
          · rfl
          · split_ifs
            · exact heard_emit_statuses (by simpa using hstatus)
            · rfl
        · exact heard_of_reports reports_err

/-! ## JOIN and ACCEPT -/

theorem moveTo_client (reg : Registry) (d x : ClientPtr) (room : RoomPtr) : ∃ seat,
    (moveTo d room reg).clients x = { reg.clients x with currentRoom := seat } := by
  obtain ⟨seat, h⟩ := acceptLeave_client reg d x
  have hadd : (roomAddMember (some room) (some d) (acceptLeave d reg)).2.clients =
      (acceptLeave d reg).clients := by
    rcases roomAddMember_cases (acceptLeave d reg) room d with ⟨h, -⟩ | ⟨h, -⟩ | ⟨h, -⟩ <;> rw [h]
    rfl
  unfold moveTo
  rcases eq_or_ne x d with rfl | hne
  · exact ⟨some room, by simp [hadd, h]⟩
  · exact ⟨seat, by simp [hadd, h, hne]⟩

theorem moveTo_members (hw : Watches c r w) (room : RoomPtr) :
    ((moveTo d room w.reg).rooms r).members = (w.room r).members.erase d ++
      if room = r ∧ ((acceptLeave d w.reg).rooms r).members.length < (w.room r).memberCapacity
      then [d] else [] := by
  have hleave : ((acceptLeave d w.reg).rooms r).members = (w.room r).members.erase d :=
    acceptLeave_members hw.sound hw.member.1
  by_cases hroom : room = r
  · subst hroom
    have hcap : ((acceptLeave d w.reg).rooms room).memberCapacity = (w.room room).memberCapacity :=
      acceptLeave_memberCapacity w.reg d room
    rcases roomAddMember_cases (acceptLeave d w.reg) room d with
      ⟨-, hin⟩ | ⟨hadd, -, hfull⟩ | ⟨hadd, -, hfree⟩
    · exact absurd acceptLeave_location hin
    · rw [hcap] at hfull
      rw [if_neg fun h => absurd h.2 (not_lt.mpr hfull), List.append_nil, ← hleave]
      simp [moveTo, hadd]
    · rw [hcap] at hfree
      rw [if_pos ⟨rfl, hfree⟩, ← hleave]
      simp [moveTo, hadd]
  · rw [if_neg fun h => hroom h.1, List.append_nil, moveTo_members_of_ne (Ne.symm hroom), hleave]

theorem presenceOf_history {room : Room} (hroom : room.roomName.length < 32) :
    ∀ line ∈ historyLines room, presenceOf room.roomName line.bytes = none := by
  have hnotice {action : Text} (hspace : ' ' ∉ action) (hlen : action.length < 32)
      (hother : changeOf action "history".toList = none) : presenceOf room.roomName
        (formatNotice maxLineLen "history".toList action room.roomName) = none :=
    (presenceOf_formatNotice (by decide) hlen hroom hspace).trans hother
  intro line hline
  unfold historyLines at hline
  split_ifs at hline
  · cases hline
  · rcases List.mem_append.mp hline with hline | hline
    · rcases List.mem_append.mp hline with hline | hline
      · rw [List.mem_singleton.mp hline]
        exact @hnotice "START".toList (by decide) (by decide) (by decide)
      · obtain ⟨m, -, rfl⟩ := List.mem_map.mp hline
        refine presenceOf_of_not_notice ?_
        simp only [replayLine]
        split_ifs
        · exact (quiet_lineOf (by decide) (by decide)).2
        · exact (quiet_lineOf (by decide) (by decide)).2
    · rw [List.mem_singleton.mp hline]
      exact @hnotice "END".toList (by decide) (by decide) (by decide)

theorem welcome_out (w₁ : World) : (welcome conn d room w₁).out = w₁.out ++
    ⟨conn.fd, conn.channel, { bytes := formatOkReply maxLineLen okJoined }⟩ ::
      (historyLines (w₁.room room)).map (⟨conn.fd, .rawSend, ·⟩) ++
    noticeTo room (w₁.client d).clientName okJoined conn.fd w₁.reg := by
  simp [welcome, World.client, World.room]

theorem heard_replayed {history : Room} {fd : Fd} {channel : Channel}
    (h : ex = fd → history.roomName = n ∧ n.length < 32) :
    heard fd n (⟨ex, channel, { bytes := formatOkReply maxLineLen okJoined }⟩ ::
      (historyLines history).map (⟨ex, .rawSend, ·⟩)) = [] := by
  refine heard_eq_nil fun o ho hfd => ?_
  rcases List.mem_cons.mp ho with rfl | ho
  · exact presenceOf_of_not_notice (isStatus_lineOf (by decide)).not_notice
  · obtain ⟨line, hline, rfl⟩ := List.mem_map.mp ho
    obtain ⟨rfl, hlen⟩ := h hfd
    exact presenceOf_history hlen line hline

theorem Watches.moveTo {conns : Conns} (hw : Watches c r w)
    (hs : (rosterOf (moveTo d room w.reg) conns).Sound)
    (hv : (rosterOf (moveTo d room w.reg) conns).Vacant)
    (hstay : c ∈ ((moveTo d room w.reg).rooms r).members) :
    Watches c r { w with reg := moveTo d room w.reg, conns } where
  sound := hs
  vacant := hv
  names x := by
    obtain ⟨seat, hx⟩ := moveTo_client w.reg d x room
    rw [World.client, hx]
    exact hw.names x
  title := by
    rw [World.room, moveTo_roomName]
    exact hw.title
  member := ⟨by rw [moveTo_roomList]; exact hw.member.1, hstay⟩

theorem moved_room (hw : Watches d r w) (hstay : d ∈ ((moveTo d room w.reg).rooms r).members) :
    room = r := by
  rw [moveTo_members hw, List.mem_append, hw.nodup.mem_erase_iff] at hstay
  by_contra hne
  simp [hne] at hstay

/-- Nobody but the members of the room hears of who enters it, and not whoever enters. -/
theorem heard_welcome {conns : Conns} (hw : Watches c r w)
    (hconn : conn.fd = (w.client d).socketFd) (hd : d ∈ w.reg.clientList)
    (hs : (rosterOf (moveTo d room w.reg) conns).Sound)
    (hv : (rosterOf (moveTo d room w.reg) conns).Vacant)
    (hstay : c ∈ ((moveTo d room w.reg).rooms r).members) :
    heard (w.client c).socketFd (w.room r).roomName
        (welcome conn d room { w with reg := moveTo d room w.reg }).out =
      heard (w.client c).socketFd (w.room r).roomName w.out ++
        if d ≠ c ∧ room = r then [.joined (w.client d).clientName] else [] := by
  rw [welcome_out, heard_append, heard_append, List.append_assoc]
  congr 1
  have hname : ((moveTo d room w.reg).clients d).clientName = (w.client d).clientName :=
    moveTo_clientName w.reg
  have hself : d = c → room = r := fun h => moved_room (h ▸ hw) (h ▸ hstay)
  have hown : conn.fd = (w.client c).socketFd → d = c :=
    fun h => by_contra fun hdc => hw.socketFd_ne hd hdc (hconn ▸ h)
  have hreplayed : heard (w.client c).socketFd (w.room r).roomName
      (⟨conn.fd, conn.channel, { bytes := formatOkReply maxLineLen okJoined }⟩ ::
        (historyLines ((moveTo d room w.reg).rooms room)).map (⟨conn.fd, .rawSend, ·⟩)) = [] :=
    heard_replayed fun h => ⟨by rw [moveTo_roomName, hself (hown h)]; rfl, hw.title⟩
  have hnotice : heard (w.client c).socketFd (w.room r).roomName
      (noticeTo room (w.client d).clientName okJoined conn.fd (moveTo d room w.reg)) =
      if d ≠ c ∧ room = r then [.joined (w.client d).clientName] else [] := by
    by_cases hdc : d = c
    · rw [if_neg fun h => h.1 hdc, ← hdc, ← hconn]
      exact heard_noticeTo_self
    · have hne : conn.fd ≠ (w.client c).socketFd := fun h => hdc (hown h)
      have hw' := hw.moveTo hs hv hstay
      have hfd : (w.client c).socketFd = ((moveTo d room w.reg).clients c).socketFd := by
        obtain ⟨seat, hx⟩ := moveTo_client w.reg d c room
        rw [hx]
        rfl
      rw [hfd] at hne ⊢
      rw [heard_noticeTo hs hv hw'.listed, moveTo_roomName]
      by_cases hroom : room = r
      · subst hroom
        rw [if_pos ⟨hw'.mem_iff.mpr rfl, hne.symm⟩, if_pos ⟨hdc, rfl⟩]
        exact congrArg _ (presenceOf_formatNotice (hw.names d) (by decide) hw.title (by decide))
      · rw [if_neg fun h => hroom (hw'.mem_iff.mp h.1), if_neg fun h => hroom h.2]
  refine (congrArg (· ++ _) hreplayed).trans ?_
  rw [List.nil_append, ← hnotice, ← hname]
  rfl

end ChatServer
