import ChatServer.Authority.Isolation
import ChatServer.History.LastN
import ChatServer.History.Mirror
import ChatServer.Membership.Creation
import ChatServer.Membership.Invariant

/-! # History across restarts

What a run does to the messages is a sequence of history operations, so that
each live room's ring mirrors the rows of its name in every state. A restart
keeps the rows: a room that is created again replays what it replayed before.
-/

namespace ChatServer

open Library World Roster

/-- The messages of a server state and its rooms are those of a database and a registry. -/
structure World.Follows (w : World) (s : Database × Registry) : Prop where
  archive : w.archive = archiveOf s.2 s.1
  rooms : w.reg.roomList ⊆ s.2.roomList
  size : w.reg.historySize = s.2.historySize

/-- No message of a room of the name is added, edited or deleted. -/
def Unsaid (n : Text) (w : World) (input : Env × Event) : Prop :=
  ∀ conn me command room, Commands w input.2 conn me command →
    (command.type = .msg ∨ command.type = .edit ∨ command.type = .delete) →
    (w.client me).currentRoom = some room → (w.room room).roomName ≠ n

/--
An ACCEPT finds its room free, all statements of the step succeed, and there is
memory for the rows that a new room loads.
-/
structure Steady (w : World) (input : Env × Event) : Prop where
  hasRoom : AcceptHasRoom w input
  sql : ∀ stmt, input.1.sql stmt = .done
  rowsMem : input.1.rowsMem = true

variable {env : Env} {w w' : World} {e : Event} {command : Cmd} {conn : Conn} {me c : ClientPtr}
  {r r' room : RoomPtr} {reg reg' : Registry} {db db' : Database} {n : Text}

theorem live_of_inside (hs : w.roster.Sound) (hp : InPlace w) (hcmd : Commands w e conn me command)
    (hin : (w.client me).currentRoom = some room) : room ∈ w.reg.roomList := by
  obtain ⟨text, -, hconn, hme, -⟩ := hcmd
  have hon : w.roster.conns conn.fd = some (some me) := roster_conns_eq_some.mpr ⟨conn, hconn, hme⟩
  exact ((hp.iff me (hs.linked.mem_of_conn hon).1 room).mp hin).1

theorem shelvesOf_createdIn :
    shelvesOf (createdIn env n me r db reg) =
      shelvesOf (reg.setRoom r (newRoom env n me reg db)) := by
  unfold createdIn
  simp only
  split_ifs
  · exact shelvesOf_modifyRoom (f := fun room => { room with members := [me] }) fun _ => rfl
  · rfl

theorem Creates.follows (h : Creates env w e me command n r) :
    (step w (env, e)).Follows (historyStep (w.db, w.reg) (env, .create n me)) := by
  have hreg := h.reg_eq
  obtain ⟨conn, reg, hcmd, ht, -, hcreate⟩ := h
  have hop : historyStep (w.db, w.reg) (env, .create n me) = (w.db, reg) := by
    simp only [historyStep, hcreate]
  obtain ⟨r', hr, -, -, -, rfl⟩ := createRoom_ok hcreate
  obtain rfl := Option.some.inj hr
  have hmessages : (step w (env, e)).db.messages = w.db.messages := by
    have hwrites : SameOutside command.type.writes w.db
        (dispatch env command conn me { w with out := [], broadcasts := [] }).db := dispatch_writes
    rw [step_eq_dispatch env hcmd (by rcases ht with ht | ht <;> simp [ht])]
    exact hwrites .messages (by rcases ht with ht | ht <;> simp [ht, CmdType.writes])
  rw [hop]
  refine ⟨?_, ?_, (step_spares w env e).limits.2⟩
  · rw [World.archive, archiveOf, hmessages, hreg, shelvesOf_createdIn]
    rfl
  · rw [hreg, createdIn_roomList]
    exact List.Subset.refl _

theorem roomAddHistory_lists {sender text : Text} {msgId : ℤ}
    (h : roomAddHistory env r sender text db reg = (msgId, db', reg')) :
    reg'.roomList = reg.roomList ∧ reg'.historySize = reg.historySize := by
  simp only [roomAddHistory] at h
  split_ifs at h <;> cases h <;> exact ⟨rfl, rfl⟩

theorem roomEditMessage_lists {msgId : ℤ} {requester newText : Text} {res : ChangeResult}
    (h : roomEditMessage env r msgId requester newText db reg = (res, db', reg')) :
    reg'.roomList = reg.roomList ∧ reg'.historySize = reg.historySize := by
  unfold roomEditMessage at h
  split at h <;> cases h <;> exact ⟨rfl, rfl⟩

theorem roomDeleteMessage_lists {msgId : ℤ} {requester : Text} {isAdmin : Bool}
    {res : ChangeResult}
    (h : roomDeleteMessage env r msgId requester isAdmin db reg = (res, db', reg')) :
    reg'.roomList = reg.roomList ∧ reg'.historySize = reg.historySize := by
  unfold roomDeleteMessage at h
  split at h <;> cases h <;> exact ⟨rfl, rfl⟩

theorem follows_of_archive (hrooms : (step w (env, e)).reg.roomList ⊆ w.reg.roomList)
    (hlist : reg'.roomList = w.reg.roomList) (hsize : reg'.historySize = w.reg.historySize)
    (harchive : (step w (env, e)).archive = archiveOf reg' db') :
    (step w (env, e)).Follows (db', reg') :=
  ⟨harchive, hlist.symm ▸ hrooms, (step_spares w env e).limits.2.trans hsize.symm⟩

/--
An event leaves the messages as they are, or does to them what one operation
does, which changes no message of an id that is not positive.
-/
theorem step_follows (hs : w.roster.Sound) (hp : InPlace w) (env : Env) (e : Event) :
    (step w (env, e)).Follows (w.db, w.reg) ∨
      ∃ op, (∀ msgId ∈ op.changes, 0 < msgId) ∧
        (step w (env, e)).Follows (historyStep (w.db, w.reg) (env, op)) := by
  by_cases hcreates : ∃ me command n r, Creates env w e me command n r
  · obtain ⟨me, command, n, r, h⟩ := hcreates
    exact .inr ⟨_, by simp [HistoryOp.changes], h.follows⟩
  · have hrooms : (step w (env, e)).reg.roomList ⊆ w.reg.roomList := by
      intro r hr
      refine (mem_step_roomList hr).resolve_right ?_
      rintro ⟨me, command, n, h⟩
      exact hcreates ⟨me, command, n, r, h⟩
    rcases step_archive w env e with hkept | ⟨conn, me, command, hcmd, ha⟩
    · exact .inl ⟨hkept, hrooms, (step_spares w env e).limits.2⟩
    · generalize hresult : (step w (env, e)).archive = a at ha
      cases ha with
      | @create n r reg ht h₁ made =>
        exact absurd ⟨me, command, n, r, conn, reg, hcmd, ht, h₁, made⟩ hcreates
      | @msg text room msgId db reg ht h₁ inside htext free added =>
        have hlive := live_of_inside hs hp hcmd inside
        refine .inr ⟨.add room (w.client me).clientName text, by simp [HistoryOp.changes], ?_⟩
        rw [historyStep]
        simp only [if_pos hlive, added]
        obtain ⟨hlist, hsize⟩ := roomAddHistory_lists added
        exact follows_of_archive hrooms hlist hsize hresult
      | @edit idStr newText room db reg ht h₁ h₂ inside htext hpos edited =>
        have hlive := live_of_inside hs hp hcmd inside
        refine .inr ⟨.edit room (atoll idStr) (w.client me).clientName newText,
          by simpa [HistoryOp.changes] using hpos, ?_⟩
        rw [historyStep]
        simp only [if_pos hlive, edited]
        obtain ⟨hlist, hsize⟩ := roomEditMessage_lists edited
        exact follows_of_archive hrooms hlist hsize hresult
      | @delete idStr room db reg ht h₁ inside hpos deleted =>
        have hlive := live_of_inside hs hp hcmd inside
        refine .inr ⟨.delete room (atoll idStr) (w.client me).clientName
          ((w.room room).adminClient = some me), by simpa [HistoryOp.changes] using hpos, ?_⟩
        rw [historyStep]
        simp only [if_pos hlive, deleted]
        obtain ⟨hlist, hsize⟩ := roomDeleteMessage_lists deleted
        exact follows_of_archive hrooms hlist hsize hresult

theorem World.Follows.mirrored {s : Database × Registry} (h : w.Follows s)
    (hm : Mirrored s.1 s.2) : Mirrored w.db w.reg := by
  have hmessages : w.db.messages = s.1.messages := congrArg Archive.messages h.archive
  have hshelves : shelvesOf w.reg = shelvesOf s.2 := congrArg Archive.shelves h.archive
  have hname (r : RoomPtr) := (shelf_eq hshelves r).1
  have hring (r : RoomPtr) := (shelf_eq hshelves r).2
  refine ⟨⟨fun r hr r' hr' he => ?_, fun r hr => ?_, fun r hr => ?_⟩, fun r hr => ?_⟩
  · rw [hname, hname] at he
    exact hm.names r (h.rooms hr) r' (h.rooms hr') he
  · rw [hring]
    exact hm.valid r (h.rooms hr)
  · rw [hring, h.size]
    exact hm.cap r (h.rooms hr)
  · rw [hring, hname, h.size, hmessages]
    exact hm.agree r (h.rooms hr)

/-- What is kept along a steady run. -/
structure Mirrors (size : ℕ) (w : World) : Prop where
  sound : w.roster.Sound
  inPlace : InPlace w
  mirrored : Mirrored w.db w.reg
  size : w.reg.historySize = size

theorem mirrors_step {size : ℕ} (hpos : 0 < size) (hle : size ≤ 1000000)
    (h : Mirrors size w) (hc : Steady w (env, e)) : Mirrors size (step w (env, e)) := by
  have hsize := h.size
  refine ⟨(step_leads w env e).sound h.sound, inPlace_step h.sound h.inPlace hc.hasRoom, ?_,
    (step_spares w env e).limits.2.trans h.size⟩
  rcases step_follows h.sound h.inPlace env e with hkept | ⟨op, hids, hop⟩
  · exact hkept.mirrored h.mirrored
  · refine hop.mirrored (historyStep_mirrored h.mirrored ?_ ?_ hc.sql (not_parts hc.rowsMem hids))
    · simp only
      omega
    · simp only
      omega

theorem mirrors_init (cfg : Config) (hpos : 1 ≤ cfg.historySize) (db : Database) (start : ℤ) :
    Mirrors cfg.historySize.toNat (World.init cfg db start) := by
  have hroster := roster_init cfg db start
  refine ⟨hroster.sound, (inPlace_iff_settled hroster.sound).mpr hroster.settled, ⟨?_, ?_⟩,
    if_pos (by omega)⟩
  · constructor <;> intro r hr <;> cases hr
  · intro r hr
    cases hr

/-- In every state of a steady run the rings of all live rooms mirror their rows. -/
theorem run_mirrors (cfg : Config) (hpos : 1 ≤ cfg.historySize) (hle : cfg.historySize ≤ 1000000)
    (db : Database) (start : ℤ) {inputs : List (Env × Event)}
    (h : Along step Steady (World.init cfg db start) inputs) :
    Mirrors cfg.historySize.toNat (run step (World.init cfg db start) inputs) :=
  run_invariant_along (fun _ _ hm hc => mirrors_step (by omega) (by omega) hm hc)
    (mirrors_init cfg hpos db start) h

theorem entries_other {size : ℕ} (hle : size ≤ 1000000) (h : Mirrors size w)
    (hlive : room ∈ w.reg.roomList) (hne : (w.room room).roomName ≠ n) {msgId : ℤ}
    {mayChange : Message → Bool} {change : Message → Message} {h' : RingBuffer Message}
    {f : Entry → Entry} (hentry : ∀ m, (change m).entry = f m.entry)
    (hchange : changeMessage (w.room room).history msgId mayChange change = (.ok, h')) :
    (w.db.messages.entries n).map (.amend msgId f) = w.db.messages.entries n := by
  have hm := h.mirrored
  have hagree : (w.room room).history.toList.map Message.entry =
      (w.db.messages.entries (w.room room).roomName).rtake w.reg.historySize := hm.agree room hlive
  have hcap : (w.room room).history.cap ≤ 1000000 := by
    have hroom : (w.room room).history.cap = w.reg.historySize := hm.cap room hlive
    rw [hroom, h.size]
    exact hle
  have hsorted : ((w.room room).history.toList.map Message.entry).Pairwise
      fun e e' => e.id < e'.id := by
    rw [hagree]
    exact entries_sorted.sublist (List.drop_sublist _ _)
  obtain ⟨-, -, -, m, hmem, hid, -⟩ :=
    changeMessage_ok (hm.valid room hlive) hcap hsorted hentry hchange
  have he : m.entry ∈ (w.db.messages.entries (w.room room).roomName).rtake w.reg.historySize :=
    hagree ▸ List.mem_map_of_mem hmem
  exact Entry.map_amend_of_forall_ne fun e' he' hid' =>
    hne (entries_disjoint (mem_of_mem_rtake he) he' (hid.trans hid'.symm))

theorem entries_step {size : ℕ} (hle : size ≤ 1000000) (h : Mirrors size w)
    (hc : Steady w (env, e)) (hq : Unsaid n w (env, e)) :
    (step w (env, e)).db.messages.entries n = w.db.messages.entries n := by
  rcases step_archive w env e with hkept | ⟨conn, me, command, hcmd, ha⟩
  · have hmessages : (step w (env, e)).db.messages = w.db.messages :=
      congrArg Archive.messages hkept
    rw [hmessages]
  · generalize hresult : (step w (env, e)).archive = a at ha
    have hmessages : (step w (env, e)).db.messages = a.messages :=
      congrArg Archive.messages hresult
    rw [hmessages]
    cases ha with
    | create ht h₁ made => rfl
    | @msg text room msgId db reg ht h₁ inside htext free added =>
      obtain ⟨rfl, -⟩ := shelvesOf_of_added added
      have hne : (w.reg.rooms room).roomName ≠ n := hq conn me command room hcmd (.inl ht) inside
      simp only [archiveOf, entries_dbSaveMessage (hc.sql _)]
      rw [if_neg hne, List.append_nil]
    | @edit idStr newText room db reg ht h₁ h₂ inside htext hpos edited =>
      obtain ⟨rfl, h', hchange, -⟩ := shelvesOf_of_edited edited
      have hne := hq conn me command room hcmd (.inr (.inl ht)) inside
      have hlive := live_of_inside h.sound h.inPlace hcmd inside
      simp only [archiveOf, entries_dbEditMessage (hc.sql _) hpos]
      exact entries_other hle h hlive hne (f := .edit newText) (fun _ => rfl) hchange
    | @delete idStr room db reg ht h₁ inside hpos deleted =>
      obtain ⟨rfl, h', hchange, -⟩ := shelvesOf_of_deleted deleted
      have hne := hq conn me command room hcmd (.inr (.inr ht)) inside
      have hlive := live_of_inside h.sound h.inPlace hcmd inside
      simp only [archiveOf, entries_dbDeleteMessage (hc.sql _) hpos]
      exact entries_other hle h hlive hne (f := .delete) (fun _ => rfl) hchange

/-- The line that replays an entry of a room. -/
def Entry.replay (room : Text) (e : Entry) : Line :=
  ⟨replayLine ⟨e.id, e.sender, e.text, 0, e.deleted, 0⟩, some (.stored room e.id)⟩

/-- Rooms of one name whose rings have the same entries are replayed alike. -/
theorem historyLines_congr {m m' : Room} (hname : m.roomName = m'.roomName)
    (hfit : m.history.start + m.history.cap ≤ 2 ^ 31)
    (hfit' : m'.history.start + m'.history.cap ≤ 2 ^ 31)
    (hring : m.history.toList.map Message.entry = m'.history.toList.map Message.entry) :
    historyLines m = historyLines m' := by
  have hlen : m.history.stored = m'.history.stored := by
    have hlength := congrArg List.length hring
    simpa using hlength
  have hreplay (m : Room) (hfit : m.history.start + m.history.cap ≤ 2 ^ 31) :
      ((historyScan m.history).reduceOption.map fun x =>
        (⟨replayLine x, some (.stored m.roomName x.id)⟩ : Line)) =
          (m.history.toList.map Message.entry).map (Entry.replay m.roomName) := by
    rw [historyScan_eq (.inr hfit), reduceOption_map_some, List.map_map]
    rfl
  unfold historyLines
  rw [hlen, hname, ← hname, hreplay m hfit, hring, hname, hreplay m' hfit']

theorem historyLines_mirrored {size : ℕ} (hle : size ≤ 1000000) (h : Mirrors size w)
    (h' : Mirrors size w') (hr : r ∈ w.reg.roomList) (hr' : r' ∈ w'.reg.roomList)
    (hname : (w.room r).roomName = (w'.room r').roomName)
    (hrows : w.db.messages.entries (w.room r).roomName =
      w'.db.messages.entries (w.room r).roomName) :
    historyLines (w.room r) = historyLines (w'.room r') := by
  have hring : (w.room r).history.toList.map Message.entry =
      (w.db.messages.entries (w.room r).roomName).rtake w.reg.historySize :=
    h.mirrored.agree r hr
  have hring' : (w'.room r').history.toList.map Message.entry =
      (w'.db.messages.entries (w'.room r').roomName).rtake w'.reg.historySize :=
    h'.mirrored.agree r' hr'
  have hfit {v : World} {x : RoomPtr} (hv : Mirrors size v) (hx : x ∈ v.reg.roomList) :
      (v.room x).history.start + (v.room x).history.cap ≤ 2 ^ 31 := by
    have hcap : (v.room x).history.cap = v.reg.historySize := hv.mirrored.cap x hx
    have hsize := hv.size
    have hstart : (v.room x).history.start < (v.room x).history.cap :=
      (hv.mirrored.valid x hx).start_lt
    omega
  refine historyLines_congr hname (hfit h hr) (hfit h' hr') ?_
  rw [hring, hring', hrows, h.size, h'.size, hname]

/--
A restart loses no message: a room that is live when the server stops and one
that is live under the same name after a restart, where nothing was said in
rooms of that name, replay the same lines to whoever joins.
-/
theorem restart_replays (cfg : Config) (hpos : 1 ≤ cfg.historySize)
    (hle : cfg.historySize ≤ 1000000) (db : Database) (start start' : ℤ) (n : Text)
    {inputs inputs' : List (Env × Event)}
    (hsteady : Along step Steady (World.init cfg db start) inputs)
    (hsteady' : Along step (fun w input => Steady w input ∧ Unsaid n w input)
      (World.init cfg (run step (World.init cfg db start) inputs).db start') inputs') :
    let w := run step (World.init cfg db start) inputs
    let w' := run step (World.init cfg w.db start') inputs'
    ∀ r ∈ w.reg.roomList, (w.room r).roomName = n →
      ∀ r' ∈ w'.reg.roomList, (w'.room r').roomName = n →
        historyLines (w'.room r') = historyLines (w.room r) := by
  intro w w' r hr hn r' hr' hn'
  have h : Mirrors cfg.historySize.toNat w := run_mirrors cfg hpos hle db start hsteady
  obtain ⟨h', hrows⟩ : Mirrors cfg.historySize.toNat w' ∧
      w'.db.messages.entries n = w.db.messages.entries n := by
    refine run_invariant_along (I := fun v : World => Mirrors cfg.historySize.toNat v ∧
      v.db.messages.entries n = w.db.messages.entries n) ?_
      ⟨mirrors_init cfg hpos w.db start', rfl⟩ hsteady'
    rintro v ⟨env, e⟩ ⟨hv, hkept⟩ ⟨hc, hq⟩
    exact ⟨mirrors_step (by omega) (by omega) hv hc,
      (entries_step (by omega) hv hc hq).trans hkept⟩
  exact (historyLines_mirrored (by omega) h h' hr hr' (hn.trans hn'.symm)
    (hn.symm ▸ hrows.symm)).symm

theorem steady_of_not_accept {input : Env × Event} (hsql : ∀ stmt, input.1.sql stmt = .done)
    (hrows : input.1.rowsMem = true)
    (hline : ∀ fd text, input.2 = .line fd text → (parseLine text).type ≠ .accept) :
    Steady w input :=
  ⟨fun _ _ _ _ _ _ he _ _ ht => absurd ht (hline _ _ he), hsql, hrows⟩

theorem unsaid_of_type {input : Env × Event} (hline : ∀ fd text, input.2 = .line fd text →
    (parseLine text).type ∉ [.msg, .edit, .delete]) : Unsaid n w input := by
  rintro conn me command room ⟨text, he, -, -, rfl⟩ ht
  refine absurd ?_ (hline conn.fd text he)
  rcases ht with ht | ht | ht <;> simp [ht]

/-- Alice opens the lounge and says something. -/
def saidInLounge : List (Env × Event) :=
  [(.calm 0 0 [], .accept 4 false), (.calm 0 0 "t0".toList, .line 4 "REGISTER alice pw".toList),
   (.calm 0 0 [], .line 4 "CREATE lounge".toList), (.calm 0 0 [], .line 4 "MSG hi".toList)]

/-- She opens it again. -/
def loungeAgain : List (Env × Event) :=
  [(.calm 0 0 [], .accept 4 false), (.calm 0 0 "t1".toList, .line 4 "LOGIN alice pw".toList),
   (.calm 0 0 [], .line 4 "CREATE lounge".toList)]

theorem loungeAgain_replays :
    let w := run step (World.init ⟨4, 4, 4, 10⟩ .empty 0) saidInLounge
    let w' := run step (World.init ⟨4, 4, 4, 10⟩ w.db 0) loungeAgain
    historyLines (w'.room 0) = historyLines (w.room 0) ∧ (historyLines (w.room 0)).length = 3 := by
  intro w w'
  have haccept {P : CmdType → Prop} (fd : Fd) (text : Text)
      (he : Event.accept 4 false = .line fd text) : P (parseLine text).type := by cases he
  have hline {P : CmdType → Prop} {text : Text} (ht : P (parseLine text).type) (fd : Fd)
      (text' : Text) (he : Event.line 4 text = .line fd text') : P (parseLine text').type :=
    (Event.line.inj he).2 ▸ ht
  have hconnect {v : World} : Steady v (.calm 0 0 [], .accept 4 false) :=
    steady_of_not_accept (fun _ => rfl) rfl (haccept (P := (· ≠ .accept)))
  have hcommand {v : World} {token text : Text} (ht : (parseLine text).type ≠ .accept) :
      Steady v (.calm 0 0 token, .line 4 text) :=
    steady_of_not_accept (fun _ => rfl) rfl (hline (P := (· ≠ .accept)) ht)
  have hsaid : Along step Steady (World.init ⟨4, 4, 4, 10⟩ .empty 0) saidInLounge :=
    ⟨hconnect, hcommand (by decide +kernel), hcommand (by decide +kernel),
      hcommand (by decide +kernel), trivial⟩
  have hagain : Along step (fun v input => Steady v input ∧ Unsaid "lounge".toList v input)
      (World.init ⟨4, 4, 4, 10⟩ w.db 0) loungeAgain := by
    refine ⟨⟨hconnect, ?_⟩, ⟨hcommand (by decide +kernel), ?_⟩, ⟨hcommand (by decide +kernel), ?_⟩,
      trivial⟩
    · exact unsaid_of_type (haccept (P := (· ∉ [.msg, .edit, .delete])))
    · exact unsaid_of_type (hline (P := (· ∉ [.msg, .edit, .delete])) (by decide +kernel))
    · exact unsaid_of_type (hline (P := (· ∉ [.msg, .edit, .delete])) (by decide +kernel))
  exact ⟨restart_replays ⟨4, 4, 4, 10⟩ (by decide) (by decide) .empty 0 0 "lounge".toList hsaid
    hagain 0 (by decide +kernel) (by decide +kernel) 0 (by decide +kernel) (by decide +kernel),
    by decide +kernel⟩

end ChatServer
