import ChatServer.History.Archive
import ChatServer.Replies.OneLine

/-! # Mutes and blocks

The tables of mutes and blocks are written by four commands and read by none:
a muted user's messages are stored and sent, and a blocked user's messages
reach whoever blocked it, whenever anybody else's would.
-/

namespace ChatServer

open Library World

def Muted (db : Database) (n u : Text) : Prop :=
  ∃ s ∈ db.mutes.rows, s.roomName = n ∧ s.user = u

def Blocks (db : Database) (b u : Text) : Prop := ⟨b, u⟩ ∈ db.blocks.rows

/-- The descriptor belongs to a connection that is logged in under a name. -/
def ConnectionOf (w : World) (fd : Fd) (n : Text) : Prop :=
  ∃ conn c, w.conns.get fd = some conn ∧ conn.me = some c ∧ (w.client c).clientName = n

/-- A user sends a line with a command. -/
def Sends (w : World) (e : Event) (u : Text) : Prop :=
  ∃ conn me command, Commands w e conn me command ∧ (w.client me).clientName = u

/-- A user wrote the message that a line of an event carries. -/
def WrittenBy (w : World) (e : Event) (u : Text) : Carried → Prop
  | .live _ => Sends w e u
  | .stored n id =>
    (∃ r ∈ w.reg.roomList, (w.room r).roomName = n ∧
      ∃ m ∈ (historyScan (w.room r).history).reduceOption, m.id = id ∧ m.sender = u) ∨
    ∃ row ∈ w.db.messages.ofRoom n, row.id = id ∧ row.load.sender = u

/-- What mutes and blocks promise about one event. -/
structure Suppresses (env : Env) (w : World) (e : Event) : Prop where
  stored : ∀ conn me command room, Commands w e conn me command → command.type = .msg →
    (w.client me).currentRoom = some room →
    Muted w.db (w.room room).roomName (w.client me).clientName →
    (step w (env, e)).archive = w.archive
  sent : ∀ conn me command room, Commands w e conn me command → command.type = .msg →
    (w.client me).currentRoom = some room →
    Muted w.db (w.room room).roomName (w.client me).clientName →
    ∀ o ∈ (step w (env, e)).out, o.line.carries = none
  message : ∀ b u, Blocks w.db b u → ∀ o ∈ (step w (env, e)).out, ConnectionOf w o.fd b →
    ∀ carried, o.line.carries = some carried → ¬ WrittenBy w e u carried
  privateMessage : ∀ b u, Blocks w.db b u → Sends w e u →
    ∀ o ∈ (step w (env, e)).out, ConnectionOf w o.fd b → ¬ replyPmFrom <+: o.line.bytes

/-- The events that pass a mute or a block. -/
inductive Unsuppressed (env : Env) (w : World) (e : Event) : Prop
  | muted {conn : Conn} {me : ClientPtr} {command : Cmd} {room : RoomPtr} {msgId : ℤ}
      (h : Commands w e conn me command) (ht : command.type = .msg)
      (accepted : messageOf env command me w = some (room, msgId))
      (mute : Muted w.db (w.room room).roomName (w.client me).clientName)
      (kept : env.sql .saveMessage = .done ∨ (w.room room).history.cap ≠ 0 ∨
        broadcastFds room conn.fd w.reg ≠ [])
  | message {conn : Conn} {me : ClientPtr} {command : Cmd} {room : RoomPtr} {msgId : ℤ} {b : Text}
      {fd : Fd} (h : Commands w e conn me command) (ht : command.type = .msg)
      (accepted : messageOf env command me w = some (room, msgId))
      (block : Blocks w.db b (w.client me).clientName) (reached : ConnectionOf w fd b)
      (member : fd ∈ broadcastFds room conn.fd w.reg)
  | replay {conn : Conn} {me : ClientPtr} {command : Cmd} {n u : Text} {id : ℤ}
      (h : Commands w e conn me command) (block : Blocks w.db (w.client me).clientName u)
      (found : .stored n id ∈ shown env command me w) (author : WrittenBy w e u (.stored n id))
  | privateMessage {conn : Conn} {me target : ClientPtr} {command : Cmd} {text b : Text}
      (h : Commands w e conn me command) (ht : command.type = .pm)
      (accepted : privateOf env command me w = some (target, text))
      (block : Blocks w.db b (w.client me).clientName)
      (reached : ConnectionOf w (w.client target).socketFd b)

variable {env : Env} {w : World} {e : Event} {conn : Conn} {me : ClientPtr} {command : Cmd}
  {room : RoomPtr} {msgId : ℤ} {text b u : Text} {fd : Fd} {h : RingBuffer Message}

theorem addMessage_ne (m : Message) : addMessage h m ≠ h := by
  intro he
  have hcount := congrArg RingBuffer.count he
  have hstart := congrArg RingBuffer.start he
  simp only [addMessage, RingBuffer.write] at hcount hstart
  by_cases hc : h.count < 1000000
  · rw [if_pos hc] at hcount
    omega
  · rw [if_neg hc] at hcount
    rw [if_neg (by omega)] at hstart
    have hlt := Nat.mod_lt (h.start + 1) (by omega : h.cap > 0)
    by_cases hlast : h.start + 1 = h.cap
    · rw [hlast, Nat.mod_self] at hstart
      omega
    · rw [Nat.mod_eq_of_lt (by omega)] at hstart
      omega

theorem dbSaveMessage_messages {roomName sender : Text} {db : Database} :
    (dbSaveMessage env roomName sender text db).2.messages = db.messages ↔
      env.sql .saveMessage ≠ .done := by
  unfold dbSaveMessage
  split
  · rename_i hsql
    refine iff_of_false (fun he => ?_) (by simp [hsql])
    have hlen := congrArg (fun t => t.rows.length) he
    simp [Messages.insert] at hlen
  · rename_i hsql
    exact iff_of_true rfl hsql

theorem handleMsg_archive_iff (conn : Conn)
    (hsent : messageOf env command me w = some (room, msgId)) :
    (handleMsg env command conn me w).archive = w.archive ↔
      env.sql .saveMessage ≠ .done ∧ (w.room room).history.cap = 0 := by
  obtain ⟨hcur, hrate, text, h₁, htext⟩ := messageOf_eq_some hsent
  rw [handleMsg_added hcur hrate h₁ htext]
  rcases hadd : roomAddHistory env room (w.client me).clientName text w.db w.reg with
    ⟨id, db, reg⟩
  obtain ⟨rfl, hshelves⟩ := shelvesOf_of_added hadd
  simp only [archive, archiveOf, Archive.mk.injEq, hshelves, dbSaveMessage_messages]
  refine and_congr_right fun _ => ?_
  change _ ↔ (w.reg.rooms room).history.cap = 0
  constructor
  · intro he
    by_contra hcap
    have hroom := congrArg Shelf.history (congrFun he room)
    rw [Function.update_self, if_neg hcap] at hroom
    exact addMessage_ne _ hroom
  · intro hcap
    rw [if_pos hcap]
    exact Function.update_eq_self room (shelvesOf w.reg)

theorem handleMsg_archive_of_refused (conn : Conn) (hsent : messageOf env command me w = none) :
    (handleMsg env command conn me w).archive = w.archive := by
  rcases hrate : rateLimitCheck env me w.reg with ⟨ok, reg⟩
  have hkeep : shelvesOf reg = shelvesOf w.reg := shelvesOf_of_rateLimit hrate
  unfold messageOf at hsent
  cases hcur : (w.client me).currentRoom with
  | none => simp [handleMsg, hcur, archive, archiveOf]
  | some room =>
    cases ok with
    | false => simp [handleMsg, hcur, hrate, archive, archiveOf, hkeep]
    | true =>
      cases h₁ : command.arg1 with
      | none => simp [handleMsg, hcur, hrate, h₁, archive, archiveOf, hkeep]
      | some text =>
        simp only [hcur, h₁, hrate] at hsent
        split_ifs at hsent with htext
        simp [handleMsg, hcur, hrate, h₁, htext, archive, archiveOf, hkeep]

/-- A MSG changes the messages exactly if it is accepted and stored. -/
theorem step_msg_archive (hcmd : Commands w e conn me command) (ht : command.type = .msg) :
    (step w (env, e)).archive ≠ w.archive ↔ ∃ room msgId,
      messageOf env command me w = some (room, msgId) ∧
        (env.sql .saveMessage = .done ∨ (w.room room).history.cap ≠ 0) := by
  have hstep : (step w (env, e)).archive =
      (handleMsg env command conn me { w with out := [], broadcasts := [] }).archive := by
    rw [step_eq_dispatch env hcmd (by simp [ht]), dispatch, ht]
  rw [hstep]
  cases hsent : messageOf env command me w with
  | none =>
    have hkept : _ = w.archive :=
      handleMsg_archive_of_refused (w := { w with out := [], broadcasts := [] }) conn hsent
    simp [hkept]
  | some p =>
    obtain ⟨room, msgId⟩ := p
    have hiff : _ = w.archive ↔ _ :=
      handleMsg_archive_iff (w := { w with out := [], broadcasts := [] }) conn hsent
    rw [ne_eq, hiff]
    simp only [Option.some.injEq, Prod.mk.injEq]
    constructor
    · intro h
      exact ⟨room, msgId, ⟨rfl, rfl⟩, or_iff_not_imp_left.mpr fun hsql hcap => h ⟨hsql, hcap⟩⟩
    · rintro ⟨_, _, ⟨rfl, rfl⟩, h⟩ ⟨hsql, hcap⟩
      exact h.elim hsql fun h => h hcap

theorem not_pm_of_head {t : Text} (h : t.head? ≠ some 'P') : ¬ replyPmFrom <+: t := by
  rintro ⟨rest, rfl⟩
  exact h rfl

theorem not_pm_snprintf {t : Text} (h : t.head? ≠ some 'P') :
    ¬ replyPmFrom <+: snprintf maxLineLen t := by
  refine not_pm_of_head ?_
  rw [snprintf, List.head?_take]
  exact h

theorem not_pm_lineOf {word : Text} {words : List Text} (h : word.head?.any (· ≠ 'P')) :
    ¬ replyPmFrom <+: snprintf maxLineLen (lineOf (word :: words)) := by
  obtain ⟨c, hc, hne⟩ := (Option.any_eq_true _ _).mp h
  refine not_pm_snprintf ?_
  obtain ⟨rest, rfl⟩ : ∃ rest, word = c :: rest := by
    cases word with
    | nil => cases hc
    | cons c' rest => exact ⟨rest, by simpa using hc⟩
  cases words <;> simpa [lineOf, List.intercalate] using hne

theorem not_pm_of_holds {b : ListBuf} {s rest : Text} (hb : b.Holds (s ++ rest))
    (h : s.head?.any (· ≠ 'P')) : ¬ replyPmFrom <+: b.text := by
  obtain ⟨c, hc, hne⟩ := (Option.any_eq_true _ _).mp h
  rw [hb.1]
  refine not_pm_snprintf ?_
  rw [List.head?_append, Option.mem_def.mp hc]
  simpa using hne

theorem not_pm_page {word : Text} {words entries : List Text} (h : word.head?.any (· ≠ 'P')) :
    ¬ replyPmFrom <+: ((ListBuf.printGuarded entries
      (ListBuf.print ([' '].intercalate (word :: words)) {})).print ['\n']).text := by
  obtain ⟨shown, -, hholds, -⟩ := (ListBuf.holds_empty.print
    ([' '].intercalate (word :: words))).printGuarded entries
  have hprint := hholds.print ['\n']
  rw [List.nil_append, List.append_assoc] at hprint
  refine not_pm_of_holds hprint ?_
  obtain ⟨c, hc, hne⟩ := (Option.any_eq_true _ _).mp h
  refine (Option.any_eq_true _ _).mpr ⟨c, ?_, hne⟩
  cases words with
  | nil => simpa [List.intercalate] using hc
  | cons word' words =>
    rw [List.intercalate_cons_cons, List.append_assoc, List.head?_append, Option.mem_def.mp hc]
    rfl

theorem not_pm_listReply {word : Text} {entries : List Text} (h : word.head?.any (· ≠ 'P')) :
    ¬ replyPmFrom <+: (listReply word entries command).text := by
  unfold listReply
  simp only
  split_ifs
  · exact not_pm_page h
  · have hprint := ((ListBuf.holds_empty.print word).printAll entries).print ['\n']
    rw [List.nil_append, List.append_assoc] at hprint
    exact not_pm_of_holds hprint h

theorem Short.not_pm {t : Text} (h : Short env w t) : ¬ replyPmFrom <+: t := by
  cases h with
  | ok code h => exact not_pm_lineOf (by decide)
  | err code h => exact not_pm_lineOf (by decide)
  | session status token h htoken =>
    unfold formatOkSession
    split_ifs <;> exact not_pm_lineOf (by decide)
  | health => exact not_pm_lineOf (by decide)
  | notice c action h r => exact not_pm_lineOf (by decide)
  | deleted s => exact not_pm_lineOf (by decide)
  | receipt s c => exact not_pm_lineOf (by decide)
  | typing word h c => rcases h with rfl | rfl <;> exact not_pm_lineOf (by decide)
  | invite c r => exact not_pm_lineOf (by decide)
  | replay r line h =>
    unfold historyLines at h
    split_ifs at h
    · cases h
    · simp only [List.mem_append, List.mem_singleton, List.mem_map] at h
      rcases h with (rfl | ⟨m, -, rfl⟩) | rfl
      · exact not_pm_lineOf (by decide)
      · simp only [replayLine_eq]
        exact not_pm_lineOf (by decide)
      · exact not_pm_lineOf (by decide)
  | history n cursor limit found hlimit line h =>
    simp only [historyReply, List.mem_append, List.mem_singleton, List.mem_map] at h
    rcases h with (rfl | ⟨m, -, rfl⟩) | rfl <;> exact not_pm_lineOf (by decide)
  | sessions c => exact not_pm_page (by decide)

/-- Of the long lines only that of a PM is a private message. -/
theorem not_pm_longLine {t : Text} (ht : command.type ≠ .pm)
    (h : longLine env command me w = some t) : ¬ replyPmFrom <+: t := by
  unfold longLine at h
  split at h
  · split at h
    · obtain rfl := Option.some.inj h
      exact not_pm_lineOf (by decide)
    · cases h
  · obtain ⟨p, -, rfl⟩ := Option.map_eq_some_iff.mp h
    exact not_pm_lineOf (by decide)
  · exact absurd ‹_› ht
  · obtain rfl := Option.some.inj h
    exact not_pm_listReply (by decide)
  · obtain ⟨room, -, rfl⟩ := Option.map_eq_some_iff.mp h
    exact not_pm_listReply (by decide)
  · cases h

theorem handlePm_out (env : Env) (command : Cmd) (conn : Conn) (me : ClientPtr) (w : World) :
    ∃ code, (handlePm env command conn me w).out = w.out ++
    (match privateOf env command me w with
      | none => []
      | some (target, text) => [⟨(w.client target).socketFd, .rawSend,
          { bytes := formatPmReply maxLineLen (w.client me).clientName text }⟩]) ++
    [⟨conn.fd, conn.channel, { bytes := code }⟩] ∧ ¬ replyPmFrom <+: code := by
  have herr {reg : Registry} (code : Text) : ∃ t,
      ({ w with reg }.replyErr conn code).out = w.out ++ [] ++
        [⟨conn.fd, conn.channel, { bytes := t }⟩] ∧ ¬ replyPmFrom <+: t :=
    ⟨_, by rw [List.append_nil]; rfl, not_pm_lineOf (by decide)⟩
  unfold handlePm privateOf
  cases h₁ : command.arg1 with
  | none => exact herr _
  | some targetName =>
    cases h₂ : command.arg2 with
    | none => exact herr _
    | some text =>
      by_cases htext : text = []
      · simpa only [htext, if_true, ne_eq, not_true, false_and, if_false] using herr _
      rcases hrate : rateLimitCheck env me w.reg with ⟨ok, reg⟩
      simp only [htext, if_false, ne_eq, not_false_eq_true, true_and]
      cases ok with
      | false => exact herr _
      | true =>
        simp only [findClient_rateLimitCheck hrate, if_true]
        cases hfind : (findClient (some targetName) w.reg).2 with
        | none => exact herr _
        | some target => exact ⟨_, rfl, not_pm_lineOf (by decide)⟩

theorem step_pm_iff (hcmd : Commands w e conn me command) :
    (∃ o ∈ (step w (env, e)).out, o.fd = fd ∧ replyPmFrom <+: o.line.bytes) ↔
      command.type = .pm ∧ ∃ target text, privateOf env command me w = some (target, text) ∧
        (w.client target).socketFd = fd := by
  by_cases ht : command.type = .pm
  · have hout : (step w (env, e)).out =
        (handlePm env command conn me { w with out := [], broadcasts := [] }).out := by
      rw [step_eq_dispatch env hcmd (by simp [ht]), dispatch, ht]
    obtain ⟨code, hpm, hcode⟩ := handlePm_out env command conn me
        { w with out := [], broadcasts := [] }
    have hprivate : privateOf env command me { w with out := [], broadcasts := [] } =
        privateOf env command me w :=
      rfl
    rw [hout, hpm, hprivate]
    cases hsent : privateOf env command me w with
    | none => simp [ht, hcode]
    | some p =>
      obtain ⟨target, text⟩ := p
      have hline (name : Text) : replyPmFrom <+: formatPmReply maxLineLen name text := by
        refine List.prefix_take_iff.mpr ⟨?_, by decide⟩
        exact ⟨' ' :: name ++ ' ' :: text ++ ['\n'], by simp [lineOf, List.intercalate]⟩
      simp [ht, hcode, hline, World.client, eq_comm]
  · refine iff_of_false ?_ fun h => ht h.1
    rintro ⟨o, ho, -, hpm⟩
    have hcmd' := hcmd
    obtain ⟨text, rfl, -⟩ := hcmd'
    have hlong (t : Text) (h : longLineOf env w (.line conn.fd text) = some t) :
        ¬ replyPmFrom <+: t := by
      simp only [longLineOf, commandOf_eq_some.mpr hcmd] at h
      exact not_pm_longLine ht h
    exact ((step_line_prints fun t h => h.not_pm).mpr hlong).1 o ho hpm

theorem writtenBy_live (h : Commands w e conn me command) :
    WrittenBy w e u (.live room) ↔ (w.client me).clientName = u := by
  constructor
  · rintro ⟨conn', me', command', h', hname⟩
    obtain ⟨-, rfl, -⟩ := h.unique h'
    exact hname
  · exact fun hname => ⟨conn, me, command, h, hname⟩

theorem connectionOf_fd (h : Commands w e conn me command) :
    ConnectionOf w conn.fd b ↔ (w.client me).clientName = b := by
  obtain ⟨text, rfl, hconn, hme, rfl⟩ := h
  constructor
  · rintro ⟨conn', c, hconn', hc, hname⟩
    rw [hconn] at hconn'
    cases hconn'
    rw [hme] at hc
    cases hc
    exact hname
  · exact fun hname => ⟨conn, me, hconn, hme, hname⟩

/-- An event suppresses what it should exactly if it passes no mute and no block. -/
theorem suppresses_iff_not : Suppresses env w e ↔ ¬ Unsuppressed env w e := by
  constructor
  · intro hs hu
    cases hu with
    | @muted conn me command room msgId hcmd ht accepted mute kept =>
      obtain ⟨hcur, -⟩ := messageOf_eq_some accepted
      have hstored := hs.stored conn me command room hcmd ht hcur mute
      have hsent := hs.sent conn me command room hcmd ht hcur mute
      by_cases hfds : broadcastFds room conn.fd w.reg = []
      · refine (step_msg_archive hcmd ht).mpr ⟨room, msgId, accepted, ?_⟩ hstored
        tauto
      · obtain ⟨fd, hfd⟩ := List.exists_mem_of_ne_nil _ hfds
        obtain ⟨o, ho, -, hc⟩ := carries_iff.mpr ⟨conn, me, command, hcmd,
          mem_discloses.mpr (.inl ⟨ht, room, msgId, accepted, hfd, rfl⟩)⟩
        rw [hsent o ho] at hc
        cases hc
    | @message conn me command room msgId b fd hcmd ht accepted block reached member =>
      obtain ⟨o, ho, rfl, hc⟩ := carries_iff.mpr ⟨conn, me, command, hcmd,
        mem_discloses.mpr (.inl ⟨ht, room, msgId, accepted, member, rfl⟩)⟩
      exact hs.message b _ block o ho reached _ hc ((writtenBy_live hcmd).mpr rfl)
    | @replay conn me command n u id hcmd block found author =>
      obtain ⟨o, ho, hfd, hc⟩ := carries_iff.mpr ⟨conn, me, command, hcmd,
        mem_discloses.mpr (.inr ⟨rfl, found⟩)⟩
      refine hs.message _ u block o ho ?_ _ hc author
      rw [hfd]
      exact (connectionOf_fd hcmd).mpr rfl
    | @privateMessage conn me target command text b hcmd ht accepted block reached =>
      obtain ⟨o, ho, hfd, hpm⟩ := (step_pm_iff hcmd).mpr ⟨ht, target, text, accepted, rfl⟩
      exact hs.privateMessage b _ block ⟨conn, me, command, hcmd, rfl⟩ o ho (hfd ▸ reached) hpm
  · intro hu
    refine ⟨?_, ?_, ?_, ?_⟩
    · intro conn me command room hcmd ht hcur mute
      by_contra hne
      obtain ⟨room', msgId, accepted, kept⟩ := (step_msg_archive hcmd ht).mp hne
      obtain rfl : room = room' :=
        Option.some.inj (hcur.symm.trans (messageOf_eq_some accepted).1)
      exact hu (.muted hcmd ht accepted mute (kept.imp_right .inl))
    · intro conn me command room hcmd ht hcur mute o ho
      cases hc : o.line.carries with
      | none => rfl
      | some carried =>
        obtain ⟨conn', me', command', hcmd', hdisc⟩ := carries_iff.mp ⟨o, ho, rfl, hc⟩
        obtain ⟨rfl, rfl, rfl⟩ := hcmd.unique hcmd'
        rcases mem_discloses.mp hdisc with ⟨-, room', msgId, accepted, hfd, -⟩ | ⟨-, hshown⟩
        · obtain rfl : room = room' :=
            Option.some.inj (hcur.symm.trans (messageOf_eq_some accepted).1)
          exact absurd (.muted hcmd ht accepted mute (.inr (.inr (List.ne_nil_of_mem hfd)))) hu
        · simp [shown, ht] at hshown
    · intro b u block o ho reached carried hc author
      obtain ⟨conn, me, command, hcmd, hdisc⟩ := carries_iff.mp ⟨o, ho, rfl, hc⟩
      rcases mem_discloses.mp hdisc with ⟨ht, room, msgId, accepted, hfd, rfl⟩ | ⟨hfd, hshown⟩
      · obtain rfl := (writtenBy_live hcmd).mp author
        exact hu (.message hcmd ht accepted block reached hfd)
      · obtain ⟨n, id, rfl⟩ := stored_of_shown hshown
        rw [hfd] at reached
        obtain rfl := (connectionOf_fd hcmd).mp reached
        exact hu (.replay hcmd block hshown author)
    · rintro b u block ⟨conn, me, command, hcmd, rfl⟩ o ho reached hpm
      obtain ⟨ht, target, text, accepted, hfd⟩ := (step_pm_iff hcmd).mp ⟨o, ho, rfl, hpm⟩
      exact hu (.privateMessage hcmd ht accepted block (hfd ▸ reached))

/-- In every run mutes and blocks are kept to exactly if no event passes one. -/
theorem suppresses_iff (cfg : Config) (db : Database) (start : ℤ) (inputs : List (Env × Event)) :
    Along step (fun w input => Suppresses input.1 w input.2) (World.init cfg db start) inputs ↔
      Along step (fun w input => ¬ Unsuppressed input.1 w input.2)
        (World.init cfg db start) inputs := by
  refine along_congr (I := fun _ => True) (fun _ _ _ _ => trivial) (fun w input _ => ?_) trivial
  exact suppresses_iff_not

/-- Alice, muted and blocked by Bob, sends a message to their room. -/
def mutedRun : List (Env × Event) :=
  [(.calm 0 0 "t0".toList, .accept 4 false),
   (.calm 0 0 "t0".toList, .accept 5 false),
   (.calm 0 0 "t0".toList, .line 4 "REGISTER alice pw".toList),
   (.calm 0 1 "t1".toList, .line 5 "REGISTER bob pw".toList),
   (.calm 0 0 "t0".toList, .line 5 "CREATE_PRIVATE lounge".toList),
   (.calm 0 0 "t0".toList, .line 5 "MUTE alice".toList),
   (.calm 0 0 "t0".toList, .line 5 "BLOCK alice".toList),
   (.calm 0 0 "t0".toList, .line 4 "JOIN lounge".toList)]

theorem mutedRun_not_suppressed :
    ¬ Along step (fun w input => Suppresses input.1 w input.2)
      (World.init ⟨4, 4, 4, 10⟩ .empty 0)
      (mutedRun ++ [(.calm 0 0 "t0".toList, .line 4 "MSG hi".toList)]) := by
  intro h
  obtain ⟨hs, -⟩ := (along_append.mp h).2
  have hcmd : Commands (run step (World.init ⟨4, 4, 4, 10⟩ .empty 0) mutedRun)
      (.line 4 "MSG hi".toList) ⟨4, some 0, false⟩ 0 (parseLine "MSG hi".toList) :=
    ⟨_, rfl, by decide +kernel, rfl, rfl⟩
  have hmuted := hs.sent _ _ _ 0 hcmd (by decide +kernel) (by decide +kernel)
    ⟨⟨"lounge".toList, "bob".toList, "alice".toList⟩, by decide +kernel, by decide +kernel⟩
  exact absurd hmuted (by decide +kernel)

end ChatServer
