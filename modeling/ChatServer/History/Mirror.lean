import ChatServer.History.Buffer
import ChatServer.Membership.Projection

/-! # The database mirrors the history ring

A room's ring holds the window of its name's rows that `db_load_history`
selects. Saving a message extends both, and an edit or a deletion reaches the
same entry of both, since an id belongs to one row and so to one room name. The
two part when a room is created without memory for its rows, and when the ring
changes a message whose id the database refuses.
-/

namespace ChatServer

open Library

/-- What a replay shows of a message. -/
structure Entry where
  id : ℤ
  sender : Text
  text : Text
  deleted : Bool
  deriving DecidableEq, Repr

namespace Entry

/-- Change the entry of an id unless it is deleted. -/
def amend (msgId : ℤ) (f : Entry → Entry) (e : Entry) : Entry :=
  if e.id = msgId ∧ e.deleted = false then f e else e

def edit (newText : Text) (e : Entry) : Entry := { e with text := strncpy maxTextLen newText }

def delete (e : Entry) : Entry :=
  { e with deleted := true, text := strncpy maxTextLen "[deleted]".toList }

/-- Cut the texts to the size of their fields. -/
def fit (e : Entry) : Entry :=
  { e with sender := strncpy maxUsernameLen e.sender, text := strncpy maxTextLen e.text }

variable {msgId : ℤ} {f : Entry → Entry} {l : List Entry}

theorem set_eq_map_amend (hl : l.Pairwise fun e e' => e.id < e'.id) {i : ℕ} (hi : i < l.length)
    (hid : l[i].id = msgId) (hdel : l[i].deleted = false) :
    l.set i (f l[i]) = l.map (amend msgId f) := by
  apply List.ext_getElem
  · rw [List.length_set, List.length_map]
  · intro j hj hj'
    rw [List.length_set] at hj
    rw [List.getElem_set, List.getElem_map, amend]
    split_ifs with hij h h
    · subst hij; rfl
    · subst hij; exact absurd ⟨hid, hdel⟩ h
    · rcases Nat.lt_or_gt_of_ne hij with hlt | hlt
      · have := List.pairwise_iff_getElem.mp hl i j hi hj hlt
        omega
      · have := List.pairwise_iff_getElem.mp hl j i hj hi hlt
        omega
    · rfl

theorem amend_eq_self_iff {e : Entry} :
    amend msgId f e = e ↔ (e.id = msgId → e.deleted = false → f e = e) := by
  unfold amend
  split_ifs with h
  · exact ⟨fun hf _ _ => hf, fun hf => hf h.1 h.2⟩
  · exact iff_of_true rfl fun hid hdel => absurd ⟨hid, hdel⟩ h

theorem map_amend_of_forall_ne (h : ∀ e ∈ l, e.id ≠ msgId) : l.map (amend msgId f) = l := by
  conv_rhs => rw [← List.map_id l]
  exact List.map_congr_left fun e he => if_neg fun hc => h e he hc.1

end Entry

def Message.entry (m : Message) : Entry := ⟨m.id, m.sender, m.text, m.deleted⟩

/-- The entries of a room name in the database, oldest first. -/
def Messages.entries (t : Messages) (room : Text) : List Entry :=
  (t.ofRoom room).map fun row => row.load.entry

variable {t : Messages} {db db' : Database} {reg reg' : Registry} {env : Env} {r r' : RoomPtr}
  {h h' : RingBuffer Message} {room room' sender text : Text} {msgId : ℤ} {f : Entry → Entry}

/-! ## The table of messages -/

theorem entries_sorted : (t.entries room).Pairwise fun e e' => e.id < e'.id :=
  List.pairwise_map.mpr (t.sorted.sublist List.filter_sublist)

theorem entries_disjoint {e e' : Entry} (he : e ∈ t.entries room) (he' : e' ∈ t.entries room')
    (hid : e.id = e'.id) : room = room' := by
  obtain ⟨row, hrow, rfl⟩ := List.mem_map.mp he
  obtain ⟨row', hrow', rfl⟩ := List.mem_map.mp he'
  obtain ⟨hmem, hroom⟩ := List.mem_filter.mp hrow
  obtain ⟨hmem', hroom'⟩ := List.mem_filter.mp hrow'
  have hrows : row = row' := by
    refine List.inj_on_of_nodup_map (f := MessageRow.id) ?_ hmem hmem' hid
    exact List.pairwise_map.mpr (t.sorted.imp fun h => ne_of_lt h)
  subst hrows
  exact (of_decide_eq_true hroom).symm.trans (of_decide_eq_true hroom')

theorem entries_insert (t : Messages) (gap : ℕ) (row : MessageRow) :
    (t.insert gap row).entries room = t.entries room ++
      if row.room = room then [({ row with id := (t.insert gap row).seq }).load.entry] else [] := by
  simp only [Messages.entries, Messages.ofRoom, Messages.insert, List.filter_append,
    List.map_append]
  by_cases hr : row.room = room <;> simp [hr]

theorem entries_update {g : MessageRow → MessageRow} (hg : ∀ row, (g row).id = row.id)
    (hroom : ∀ row, (g row).room = row.room)
    (hentry : ∀ row, (g row).load.entry = f row.load.entry) :
    (t.update (fun row => row.id = msgId ∧ row.deleted = false) g hg).entries room =
      (t.entries room).map (.amend msgId f) := by
  have hkeep : ∀ row : MessageRow,
      (if row.id = msgId ∧ row.deleted = false then g row else row).room = row.room := by
    intro row
    split_ifs
    · exact hroom row
    · rfl
  simp only [Messages.entries, Messages.ofRoom, Messages.update, List.filter_map, List.map_map,
    Function.comp_def, decide_eq_true_eq, hkeep]
  refine List.map_congr_left fun row _ => ?_
  simp only [apply_ite (fun row : MessageRow => row.load.entry), hentry]
  rfl

theorem entries_dbSaveMessage (hsql : env.sql .saveMessage = .done) :
    (dbSaveMessage env room sender text db).2.messages.entries room' =
      db.messages.entries room' ++ if room = room' then
        [Entry.mk (dbSaveMessage env room sender text db).1 (strncpy maxUsernameLen sender)
          (strncpy maxTextLen text) false] else [] := by
  simp only [dbSaveMessage, hsql, entries_insert]
  rfl

theorem entries_dbEditMessage (hsql : env.sql .editMessage = .done) (hid : 0 < msgId) :
    (dbEditMessage env msgId text db).messages.entries room =
      (db.messages.entries room).map (.amend msgId (.edit text)) := by
  simp only [dbEditMessage, if_neg (not_le.mpr hid), hsql]
  exact entries_update _ (fun _ => rfl) fun _ => rfl

theorem entries_dbDeleteMessage (hsql : env.sql .deleteMessage = .done) (hid : 0 < msgId) :
    (dbDeleteMessage env msgId db).messages.entries room =
      (db.messages.entries room).map (.amend msgId .delete) := by
  simp only [dbDeleteMessage, if_neg (not_le.mpr hid), hsql]
  exact entries_update _ (fun _ => rfl) fun _ => rfl

theorem map_entry_dbLoadHistory (hsql : env.sql .loadHistory = .done) (db : Database)
    (room : Text) {limit : ℕ} (hpos : 0 < limit) :
    (dbLoadHistory env room limit db).map Message.entry =
      (db.messages.entries room).rtake limit := by
  rw [dbLoadHistory, if_neg hpos.ne', hsql, Sql.rows_done, List.map_map, map_rtake]
  rfl

/-! ## The ring -/

/-- Loading rows keeps the last of them, their texts cut to the size of a slot. -/
theorem toList_foldl_loadMessage (hv : h.Valid) (rows : List Message) :
    (rows.foldl loadMessage h).Valid ∧ (rows.foldl loadMessage h).cap = h.cap ∧
    (rows.foldl loadMessage h).toList.map Message.entry =
      (h.toList.map Message.entry ++ rows.map fun row => row.entry.fit).rtake h.cap := by
  obtain ⟨hvalid, hcap, hlist⟩ := toList_foldl_loadMessage_rows hv rows
  refine ⟨hvalid, hcap, ?_⟩
  rw [hlist, map_rtake, List.map_append, List.map_map]
  rfl

/-- The ring of a new room holds the rows under its name, if there was memory to read them. -/
theorem newRoom_history (hsql : env.sql .loadHistory = .done) (hpos : 0 < reg.historySize)
    (db : Database) (n : Text) (c : ClientPtr) :
    (newRoom env n c reg db).history.Valid ∧
    (newRoom env n c reg db).history.cap = reg.historySize ∧
    (newRoom env n c reg db).history.toList.map Message.entry =
      if env.rowsMem then (db.messages.entries n).rtake reg.historySize else [] := by
  obtain ⟨hv, hcap, hlist⟩ := toList_foldl_loadMessage (RingBuffer.valid_empty zeroMessage hpos)
    (loadedRows env n reg.historySize db)
  refine ⟨hv, hcap, hlist.trans ?_⟩
  rw [RingBuffer.toList_empty, List.map_nil, List.nil_append, loadedRows]
  split_ifs
  · have hfit : (dbLoadHistory env n reg.historySize db).map (fun row => row.entry.fit) =
        (dbLoadHistory env n reg.historySize db).map Message.entry := by
      rw [dbLoadHistory, if_neg hpos.ne', hsql, Sql.rows_done]
      simp [Message.entry, Entry.fit, MessageRow.load]
    rw [hfit, map_entry_dbLoadHistory hsql _ _ hpos]
    refine rtake_of_length_le ?_
    rw [length_rtake]
    exact Nat.min_le_left _ _
  · rw [List.map_nil, rtake_of_length_le (Nat.zero_le _)]

/-- The slot of a message that a change succeeds on, or none that it could succeed on. -/
theorem changeMessage_cases (mayChange : Message → Bool) (change : Message → Message)
    (hv : h.Valid) (hcap : h.cap ≤ 1000000)
    (hsorted : (h.toList.map Message.entry).Pairwise fun e e' => e.id < e'.id) :
    (∃ i < h.stored, (h.slots (h.index i)).id = msgId ∧
      (h.slots (h.index i)).deleted = false ∧ mayChange (h.slots (h.index i)) ∧
      changeMessage h msgId mayChange change =
        (.ok, h.set (h.index i) (change (h.slots (h.index i))))) ∨
    (∀ m ∈ h.toList, m.id = msgId → m.deleted = false → ¬mayChange m) ∧
      ∃ err, err ≠ .ok ∧ changeMessage h msgId mayChange change = (err, h) := by
  have hs := hv.start_lt
  have hfit : h.count < h.cap ∨ h.start + h.cap ≤ 2 ^ 31 := by omega
  unfold changeMessage
  cases hfind : historyFind h msgId with
  | none =>
    refine .inr ⟨fun m hm hid => ?_, _, by simp, rfl⟩
    obtain ⟨i, hi, rfl⟩ := List.mem_map.mp hm
    have hnone := List.find?_eq_none.mp hfind _ (List.mem_map_of_mem hi)
    rw [historyIndex_eq hfit (List.mem_range.mp hi), historyRead_index] at hnone
    simp [hid] at hnone
  | some idx =>
    obtain ⟨i, hi, rfl⟩ := List.mem_map.mp (List.mem_of_find?_eq_some hfind)
    have hi : i < h.stored := List.mem_range.mp hi
    have hid := List.find?_some hfind
    rw [historyIndex_eq hfit hi] at hid
    rw [historyRead_index] at hid
    have hid : (h.slots (h.index i)).id = msgId := by simpa using hid
    have honly : ∀ m ∈ h.toList, m.id = msgId → m = h.slots (h.index i) := by
      intro m hm hm'
      obtain ⟨j, hj, rfl⟩ := List.getElem_of_mem hm
      have hlen : i < h.toList.length := by simpa using hi
      have hget : h.toList[i] = h.slots (h.index i) := RingBuffer.getElem_toList _
      have hlt := List.pairwise_iff_getElem.mp (List.pairwise_map.mp hsorted)
      rcases Nat.lt_trichotomy j i with hji | rfl | hij
      · have := hlt j i hj hlen hji
        rw [hget] at this
        exact absurd (hm'.trans hid.symm) (ne_of_lt this)
      · exact hget
      · have := hlt i j hlen hj hij
        rw [hget] at this
        exact absurd (hid.trans hm'.symm) (ne_of_lt this)
    simp only [historyIndex_eq hfit hi, Int.toNat_natCast]
    split_ifs with hdel hmay
    · refine .inr ⟨fun m hm hm' hlive => ?_, _, by simp, rfl⟩
      rw [honly m hm hm', hdel] at hlive
      cases hlive
    · refine .inr ⟨fun m hm hm' _ => ?_, _, by simp, rfl⟩
      rw [honly m hm hm']
      simpa using hmay
    · exact .inl ⟨i, hi, hid, by simpa using hdel, by simpa using hmay, rfl⟩

theorem changeMessage_ok {mayChange : Message → Bool} {change : Message → Message}
    (hv : h.Valid) (hcap : h.cap ≤ 1000000)
    (hsorted : (h.toList.map Message.entry).Pairwise fun e e' => e.id < e'.id)
    (hchange : ∀ m, (change m).entry = f m.entry)
    (hok : changeMessage h msgId mayChange change = (.ok, h')) :
    h'.Valid ∧ h'.cap = h.cap ∧
    h'.toList.map Message.entry = (h.toList.map Message.entry).map (.amend msgId f) ∧
    ∃ m ∈ h.toList, m.id = msgId ∧ m.deleted = false ∧ mayChange m := by
  rcases changeMessage_cases mayChange change hv hcap hsorted with
    ⟨i, hi, hid, hdel, hmay, hset⟩ | ⟨-, err, herr, hfail⟩
  · rw [hset] at hok
    obtain rfl := (Prod.ext_iff.mp hok).2
    have hlen : i < (h.toList.map Message.entry).length := by simpa using hi
    have hget : (h.toList.map Message.entry)[i] = (h.slots (h.index i)).entry := by
      rw [List.getElem_map, RingBuffer.getElem_toList]
    refine ⟨hv.set _ _, rfl, ?_, _, List.mem_map_of_mem (List.mem_range.mpr hi), hid, hdel, hmay⟩
    rw [hv.toList_set hi, List.map_set, hchange, ← hget,
      Entry.set_eq_map_amend hsorted hlen ((congrArg Entry.id hget).trans hid)
        ((congrArg Entry.deleted hget).trans hdel)]
  · rw [hfail] at hok
    exact absurd (Prod.ext_iff.mp hok).1 herr

/-! ## Runs of history operations -/

inductive HistoryOp where
  | create (roomName : Text) (creator : ClientPtr)
  | add (room : RoomPtr) (sender text : Text)
  | edit (room : RoomPtr) (msgId : ℤ) (requester newText : Text)
  | delete (room : RoomPtr) (msgId : ℤ) (requester : Text) (isAdmin : Bool)
  | deleteRoom (room : RoomPtr)
  deriving DecidableEq, Repr

/-- One operation on the database and the registry. Messages go to live rooms only. -/
def historyStep (s : Database × Registry) (input : Env × HistoryOp) : Database × Registry :=
  match input.2 with
  | .create roomName creator =>
    (s.1, (createRoom input.1 (some roomName) (some creator) s.1 s.2).2.2)
  | .add room sender text =>
    if room ∈ s.2.roomList then (roomAddHistory input.1 room sender text s.1 s.2).2 else s
  | .edit room msgId requester newText =>
    if room ∈ s.2.roomList then (roomEditMessage input.1 room msgId requester newText s.1 s.2).2
    else s
  | .delete room msgId requester isAdmin =>
    if room ∈ s.2.roomList then (roomDeleteMessage input.1 room msgId requester isAdmin s.1 s.2).2
    else s
  | .deleteRoom room => (s.1, (deleteRoom (some room) s.2).2)

/-- Some message that a replay of the room shows has the id, is not deleted and meets `P`. -/
def Replayed (room : Room) (msgId : ℤ) (P : Message → Prop) : Prop :=
  ∃ m ∈ (historyScan room.history).reduceOption, m.id = msgId ∧ m.deleted = false ∧ P m

/--
The ring and the rows part. A room is created without memory for the rows of its
name, or the ring changes a message of an id that `db_edit_message` or
`db_delete_message` refuses.
-/
def Parts (s : Database × Registry) (input : Env × HistoryOp) : Prop :=
  match input.2 with
  | .create roomName _ =>
    input.1.rowsMem = false ∧ Creatable input.1 roomName s.2 ∧ s.1.messages.ofRoom roomName ≠ []
  | .edit room msgId requester newText => room ∈ s.2.roomList ∧ msgId ≤ 0 ∧
      Replayed (s.2.rooms room) msgId fun m =>
        m.sender = requester ∧ m.text ≠ strncpy maxTextLen newText
  | .delete room msgId requester isAdmin => room ∈ s.2.roomList ∧ msgId ≤ 0 ∧
      Replayed (s.2.rooms room) msgId fun m => m.sender = requester ∨ isAdmin
  | .add .. => False
  | .deleteRoom _ => False

/-- Live rooms have names of their own and rings of the configured capacity. -/
structure Rings (reg : Registry) : Prop where
  names : ∀ r ∈ reg.roomList, ∀ r' ∈ reg.roomList,
    (reg.rooms r).roomName = (reg.rooms r').roomName → r = r'
  valid : ∀ r ∈ reg.roomList, (reg.rooms r).history.Valid
  cap : ∀ r ∈ reg.roomList, (reg.rooms r).history.cap = reg.historySize

/-- Every live room's ring holds the window of the rows under its name. -/
def RingsAgree (db : Database) (reg : Registry) : Prop :=
  ∀ r ∈ reg.roomList, (reg.rooms r).history.toList.map Message.entry =
    (db.messages.entries (reg.rooms r).roomName).rtake reg.historySize

structure Mirrored (db : Database) (reg : Registry) : Prop extends Rings reg where
  agree : RingsAgree db reg

theorem setHistory_name {r' : RoomPtr} :
    ((reg.modifyRoom r fun room => { room with history := h' }).rooms r').roomName =
      (reg.rooms r').roomName := by
  rcases eq_or_ne r' r with rfl | hne
  · simp
  · simp [hne]

theorem setHistory_history {r' : RoomPtr} :
    ((reg.modifyRoom r fun room => { room with history := h' }).rooms r').history =
      if r' = r then h' else (reg.rooms r').history := by
  rcases eq_or_ne r' r with rfl | hne
  · simp
  · simp [hne]

theorem forall_addRoom_iff (hr : r ∉ reg.roomList) {room : Room} {P : RoomPtr → Room → Prop} :
    (∀ r' ∈ reg.roomList ++ [r], P r' ((reg.setRoom r room).rooms r')) ↔
      (∀ r' ∈ reg.roomList, P r' (reg.rooms r')) ∧ P r room := by
  have hold (r' : RoomPtr) (hr' : r' ∈ reg.roomList) :
      (reg.setRoom r room).rooms r' = reg.rooms r' :=
    Function.update_of_ne (ne_of_mem_of_not_mem hr' hr) _ _
  have hnew : (reg.setRoom r room).rooms r = room := Function.update_self ..
  rw [List.forall_mem_append, List.forall_mem_singleton, hnew]
  exact and_congr_left' (forall₂_congr fun r' hr' => by rw [hold r' hr'])

namespace Rings

theorem setHistory (hm : Rings reg) (hv : h'.Valid) (hcap : h'.cap = reg.historySize) :
    Rings (reg.modifyRoom r fun room => { room with history := h' }) := by
  refine ⟨fun r₁ h₁ r₂ h₂ => ?_, fun r' hr' => ?_, fun r' hr' => ?_⟩
  · rw [setHistory_name, setHistory_name]
    exact hm.names r₁ h₁ r₂ h₂
  · rw [setHistory_history]
    split_ifs
    · exact hv
    · exact hm.valid r' hr'
  · rw [setHistory_history]
    split_ifs
    · exact hcap
    · exact hm.cap r' hr'

theorem addRoom (hm : Rings reg) (hr : r ∉ reg.roomList) {room : Room}
    (hname : ∀ r' ∈ reg.roomList, (reg.rooms r').roomName ≠ room.roomName)
    (hv : room.history.Valid) (hcap : room.history.cap = reg.historySize) :
    Rings { reg.setRoom r room with roomList := reg.roomList ++ [r] } := by
  refine ⟨?_, (forall_addRoom_iff hr (P := fun _ room => room.history.Valid)).mpr ⟨hm.valid, hv⟩,
    (forall_addRoom_iff hr (P := fun _ room => room.history.cap = reg.historySize)).mpr
      ⟨hm.cap, hcap⟩⟩
  refine (forall_addRoom_iff hr (P := fun r₁ room₁ => ∀ r₂ ∈ reg.roomList ++ [r],
    room₁.roomName = ((reg.setRoom r room).rooms r₂).roomName → r₁ = r₂)).mpr
      ⟨fun r₁ h₁ => ?_, ?_⟩
  · exact (forall_addRoom_iff hr
      (P := fun r₂ room₂ => (reg.rooms r₁).roomName = room₂.roomName → r₁ = r₂)).mpr
        ⟨fun r₂ h₂ => hm.names r₁ h₁ r₂ h₂, fun h => absurd h (hname r₁ h₁)⟩
  · exact (forall_addRoom_iff hr
      (P := fun r₂ room₂ => room.roomName = room₂.roomName → r = r₂)).mpr
        ⟨fun r₂ h₂ h => absurd h.symm (hname r₂ h₂), fun _ => rfl⟩

theorem deleteRoom (hm : Rings reg) : Rings (deleteRoom (some r) reg).2 := by
  simp only [ChatServer.deleteRoom]
  split_ifs
  · exact ⟨fun r₁ h₁ r₂ h₂ => hm.names r₁ (List.mem_of_mem_erase h₁) r₂ (List.mem_of_mem_erase h₂),
      fun r' hr' => hm.valid r' (List.mem_of_mem_erase hr'),
      fun r' hr' => hm.cap r' (List.mem_of_mem_erase hr')⟩
  · exact hm

end Rings

namespace Mirrored

theorem setHistory_iff (hm : Mirrored db reg) (hr : r ∈ reg.roomList)
    (hother : ∀ r' ∈ reg.roomList, (reg.rooms r').roomName ≠ (reg.rooms r).roomName →
      db'.messages.entries (reg.rooms r').roomName = db.messages.entries (reg.rooms r').roomName) :
    RingsAgree db' (reg.modifyRoom r fun room => { room with history := h' }) ↔
      h'.toList.map Message.entry =
        (db'.messages.entries (reg.rooms r).roomName).rtake reg.historySize := by
  constructor
  · intro hagree
    have hself := hagree r hr
    rw [setHistory_history, setHistory_name, if_pos rfl] at hself
    exact hself
  · intro hself r' hr'
    rw [setHistory_history, setHistory_name]
    split_ifs with he
    · subst he; exact hself
    · rw [hother r' hr' fun h => he (hm.names r' hr' r hr h)]
      exact hm.agree r' hr'

theorem create_iff (hm : Mirrored db reg) (hsql : env.sql .loadHistory = .done)
    (hpos : 0 < reg.historySize) {n : Text} {c : ClientPtr} :
    RingsAgree db (createRoom env (some n) (some c) db reg).2.2 ↔
      ¬(env.rowsMem = false ∧ Creatable env n reg ∧ db.messages.ofRoom n ≠ []) := by
  rcases createRoom_cases env n c db reg with ⟨hc, r, hroom⟩ | ⟨hc, err, -, hfail⟩
  · obtain ⟨r', hr', hfree, -⟩ := createRoom_ok hroom
    obtain rfl := Option.some.inj hr'
    obtain ⟨-, -, hlist⟩ := newRoom_history hsql hpos db n c
    have hn : (newRoom env n c reg db).roomName = n := strncpy_of_not_badLength hc.name
    have hagree : RingsAgree db (createRoom env (some n) (some c) db reg).2.2 ↔
        (newRoom env n c reg db).history.toList.map Message.entry =
          (db.messages.entries n).rtake reg.historySize := by
      rw [hroom]
      refine (forall_addRoom_iff hfree (P := fun _ room => room.history.toList.map Message.entry =
        (db.messages.entries room.roomName).rtake reg.historySize)).trans ?_
      rw [hn]
      exact and_iff_right hm.agree
    rw [hagree, hlist]
    cases hmem : env.rowsMem with
    | true => simp
    | false =>
      have hnil : (db.messages.entries n).rtake reg.historySize = [] ↔
          db.messages.ofRoom n = [] := by
        rw [← List.length_eq_zero_iff, length_rtake, Messages.entries, List.length_map,
          ← List.length_eq_zero_iff]
        omega
      simp only [Bool.false_eq_true, if_false, true_and]
      rw [eq_comm, hnil]
      exact ⟨fun h hne => hne.2 h, fun h => by_contra fun hne => h ⟨hc, hne⟩⟩
  · rw [hfail]
    exact iff_of_true hm.agree fun h => hc h.2.1

theorem deleteRoom (hm : Mirrored db reg) : RingsAgree db (deleteRoom (some r) reg).2 := by
  simp only [ChatServer.deleteRoom]
  split_ifs
  · exact fun r' hr' => hm.agree r' (List.mem_of_mem_erase hr')
  · exact hm.agree

theorem roomAddHistory (hm : Mirrored db reg) (hsql : env.sql .saveMessage = .done)
    (hpos : 0 < reg.historySize) (hle : reg.historySize ≤ 1000000) (hr : r ∈ reg.roomList) :
    RingsAgree (roomAddHistory env r sender text db reg).2.1
      (roomAddHistory env r sender text db reg).2.2 := by
  have hcap := hm.cap r hr
  have hseq : 0 < (dbSaveMessage env (reg.rooms r).roomName sender text db).1 := by
    have := db.messages.seq_nonneg
    simp only [dbSaveMessage, hsql, Messages.insert]
    omega
  simp only [ChatServer.roomAddHistory, if_neg (show (reg.rooms r).history.cap ≠ 0 by omega),
    if_neg (not_le.mpr hseq)]
  refine (hm.setHistory_iff hr fun r' _ hne => ?_).mpr ?_
  · rw [entries_dbSaveMessage hsql, if_neg hne.symm, List.append_nil]
  · rw [toList_addMessage (hm.valid r hr) (by omega), map_rtake, List.map_append, hm.agree r hr,
      hcap, rtake_rtake_append, entries_dbSaveMessage hsql, if_pos rfl]
    rfl

theorem mem_reduceOption (hm : Mirrored db reg) (hle : reg.historySize ≤ 1000000)
    (hr : r ∈ reg.roomList) {m : Message} :
    m ∈ (historyScan (reg.rooms r).history).reduceOption ↔ m ∈ (reg.rooms r).history.toList := by
  have hcap := hm.cap r hr
  have hstart := (hm.valid r hr).start_lt
  rw [historyScan_eq (.inr (by omega)), reduceOption_map_some]

theorem sorted (hm : Mirrored db reg) (hr : r ∈ reg.roomList) :
    ((reg.rooms r).history.toList.map Message.entry).Pairwise fun e e' => e.id < e'.id := by
  rw [hm.agree r hr]
  exact entries_sorted.sublist (List.drop_sublist _ _)

/-- Amending a message that may be changed leaves the ring as it is if nothing is changed. -/
theorem amend_same_iff (hm : Mirrored db reg) (hle : reg.historySize ≤ 1000000)
    (hr : r ∈ reg.roomList) {mayChange : Message → Bool} {P : Message → Prop}
    (hP : ∀ m, m.deleted = false → (P m ↔ mayChange m ∧ f m.entry ≠ m.entry)) {m : Message}
    (hmem : m ∈ (reg.rooms r).history.toList) (hid : m.id = msgId) (hmay : mayChange m) :
    ((reg.rooms r).history.toList.map Message.entry).map (.amend msgId f) =
        (reg.rooms r).history.toList.map Message.entry ↔
      ¬Replayed (reg.rooms r) msgId P := by
  have hsame : ((reg.rooms r).history.toList.map Message.entry).map (.amend msgId f) =
      (reg.rooms r).history.toList.map Message.entry ↔
      ∀ e ∈ (reg.rooms r).history.toList.map Message.entry, Entry.amend msgId f e = e := by
    conv_lhs => rhs; rw [← List.map_id ((reg.rooms r).history.toList.map Message.entry)]
    exact List.map_inj_left
  rw [hsame]
  constructor
  · rintro hsame ⟨m', hm', hid', hdel', hp⟩
    rw [hm.mem_reduceOption hle hr] at hm'
    exact ((hP m' hdel').mp hp).2
      (Entry.amend_eq_self_iff.mp (hsame _ (List.mem_map_of_mem hm')) hid' hdel')
  · intro hnot e he
    obtain ⟨m', hm', rfl⟩ := List.mem_map.mp he
    refine Entry.amend_eq_self_iff.mpr fun hid' hdel' => by_contra fun hf => ?_
    have hsame : m' = m := by
      refine List.inj_on_of_nodup_map (f := Message.id) ?_ hm' hmem (hid'.trans hid.symm)
      exact List.pairwise_map.mpr
        ((List.pairwise_map.mp (hm.sorted hr)).imp fun h => ne_of_lt h)
    exact hnot ⟨m', (hm.mem_reduceOption hle hr).mpr hm', hid', hdel',
      (hP m' hdel').mpr ⟨hsame ▸ hmay, hf⟩⟩

/--
A change of one message. The ring goes on agreeing with the rows unless they are
left as they are and the entry of the ring is not.
-/
theorem change_iff (hm : Mirrored db reg) (hle : reg.historySize ≤ 1000000)
    (hr : r ∈ reg.roomList) (mayChange : Message → Bool) (change : Message → Message)
    (hchange : ∀ m, (change m).entry = f m.entry) {P : Message → Prop}
    (hP : ∀ m, m.deleted = false → (P m ↔ mayChange m ∧ f m.entry ≠ m.entry))
    (hdb : 0 < msgId → ∀ room, db'.messages.entries room =
      (db.messages.entries room).map (.amend msgId f))
    (hneg : msgId ≤ 0 → db' = db) {s' : Database × Registry}
    (hok : ∀ h', changeMessage (reg.rooms r).history msgId mayChange change = (.ok, h') →
      s' = (db', reg.modifyRoom r fun room => { room with history := h' }))
    (herr : ∀ err h', err ≠ .ok →
      changeMessage (reg.rooms r).history msgId mayChange change = (err, h') → s' = (db, reg)) :
    RingsAgree s'.1 s'.2 ↔ ¬(msgId ≤ 0 ∧ Replayed (reg.rooms r) msgId P) := by
  have hagree := hm.agree r hr
  have hcap : (reg.rooms r).history.cap ≤ 1000000 := (hm.cap r hr).trans_le hle
  rcases hresult : changeMessage (reg.rooms r).history msgId mayChange change with ⟨err, h'⟩
  by_cases hsuccess : err = .ok
  · subst hsuccess
    obtain ⟨-, -, hlist, m, hmem, hid, hdel, hmay⟩ :=
      changeMessage_ok (hm.valid r hr) hcap (hm.sorted hr) hchange hresult
    rw [hok h' hresult]
    rcases lt_or_ge 0 msgId with hpos | hnonpos
    · have he : m.entry ∈ db.messages.entries (reg.rooms r).roomName := by
        refine mem_of_mem_rtake (n := reg.historySize) ?_
        rw [← hagree]
        exact List.mem_map_of_mem hmem
      refine iff_of_true ((hm.setHistory_iff hr fun r' _ hne => ?_).mpr ?_) fun h =>
        absurd h.1 (not_le.mpr hpos)
      · -- the rows of other rooms have other ids
        rw [hdb hpos]
        exact Entry.map_amend_of_forall_ne fun e' he' hid' =>
          hne (entries_disjoint he' he (hid'.trans hid.symm))
      · rw [hlist, hagree, hdb hpos, map_rtake]
    · rw [hneg hnonpos, hm.setHistory_iff hr fun _ _ _ => rfl, hlist, ← hagree,
        hm.amend_same_iff hle hr hP hmem hid hmay, and_iff_right hnonpos]
  · rw [herr err h' hsuccess hresult]
    refine iff_of_true hm.agree ?_
    rintro ⟨-, m, hmem, hid, hdel, hp⟩
    rw [hm.mem_reduceOption hle hr] at hmem
    rcases changeMessage_cases mayChange change (hm.valid r hr) hcap (hm.sorted hr) with
      ⟨i, -, -, -, -, hset⟩ | ⟨hnone, -⟩
    · rw [hresult] at hset
      exact hsuccess (Prod.ext_iff.mp hset).1
    · exact hnone m hmem hid hdel ((hP m hdel).mp hp).1

end Mirrored

variable {s : Database × Registry} {input : Env × HistoryOp}

theorem historyStep_historySize : (historyStep s input).2.historySize = s.2.historySize := by
  obtain ⟨env, op⟩ := input
  cases op with
  | create n c =>
    rcases hc : createRoom env (some n) (some c) s.1 s.2 with ⟨err, o, reg'⟩
    simp only [historyStep, hc]
    by_cases herr : err = .ok
    · subst herr
      obtain ⟨r, -, -, -, -, rfl⟩ := createRoom_ok hc
      rfl
    · rw [createRoom_err herr hc]
  | add r sender text =>
    simp only [historyStep, roomAddHistory]
    split_ifs <;> rfl
  | edit r msgId requester text =>
    simp only [historyStep, roomEditMessage]
    split_ifs
    · split <;> rfl
    · rfl
  | delete r msgId requester isAdmin =>
    simp only [historyStep, roomDeleteMessage]
    split_ifs
    · split <;> rfl
    · rfl
  | deleteRoom r =>
    simp only [historyStep, deleteRoom]
    split_ifs <;> rfl

theorem historyStep_rings (hm : Rings s.2) (hpos : 0 < s.2.historySize)
    (hsql : ∀ stmt, input.1.sql stmt = .done) : Rings (historyStep s input).2 := by
  obtain ⟨env, op⟩ := input
  cases op with
  | create n c =>
    rcases createRoom_cases env n c s.1 s.2 with ⟨hc, r, hroom⟩ | ⟨-, err, -, hfail⟩
    · obtain ⟨r', hr', hfree, hnames, -⟩ := createRoom_ok hroom
      obtain rfl := Option.some.inj hr'
      obtain ⟨hv, hcap, -⟩ := newRoom_history (hsql .loadHistory) hpos s.1 n c
      have hn : (newRoom env n c s.2 s.1).roomName = n := strncpy_of_not_badLength hc.name
      simp only [historyStep, hroom]
      exact hm.addRoom hfree (fun r' hr' => hn.symm ▸ hnames r' hr') hv hcap
    · simp only [historyStep, hfail]
      exact hm
  | add r sender text =>
    simp only [historyStep, roomAddHistory]
    by_cases hr : r ∈ s.2.roomList
    · rw [if_pos hr]
      split_ifs
      · exact hm
      · exact hm
      · exact hm.setHistory (addMessage_valid (hm.valid r hr)) (hm.cap r hr)
      · exact hm.setHistory (addMessage_valid (hm.valid r hr)) (hm.cap r hr)
    · rw [if_neg hr]
      exact hm
  | edit r msgId requester text =>
    simp only [historyStep, roomEditMessage]
    split_ifs with hr
    · split
      · next hok =>
        obtain ⟨k, -, -, -, rfl⟩ := changeMessage_set hok
        exact hm.setHistory ((hm.valid r hr).set _ _) (hm.cap r hr)
      · exact hm
    · exact hm
  | delete r msgId requester isAdmin =>
    simp only [historyStep, roomDeleteMessage]
    split_ifs with hr
    · split
      · next hok =>
        obtain ⟨k, -, -, -, rfl⟩ := changeMessage_set hok
        exact hm.setHistory ((hm.valid r hr).set _ _) (hm.cap r hr)
      · exact hm
    · exact hm
  | deleteRoom r => exact hm.deleteRoom

/-- One operation keeps the rings in step with the rows exactly if it does not part them. -/
theorem historyStep_agrees_iff (hm : Mirrored s.1 s.2) (hpos : 0 < s.2.historySize)
    (hle : s.2.historySize ≤ 1000000) (hsql : ∀ stmt, input.1.sql stmt = .done) :
    RingsAgree (historyStep s input).1 (historyStep s input).2 ↔ ¬Parts s input := by
  obtain ⟨env, op⟩ := input
  cases op with
  | create n c => exact hm.create_iff (hsql _) hpos
  | add r sender text =>
    simp only [historyStep, Parts, not_false_eq_true, iff_true]
    split_ifs with hr
    · exact hm.roomAddHistory (hsql _) hpos hle hr
    · exact hm.agree
  | edit r msgId requester text =>
    by_cases hr : r ∈ s.2.roomList
    · simp only [historyStep, Parts, hr, if_true, true_and]
      refine hm.change_iff hle hr (f := .edit text) (fun m => m.sender = requester)
        (fun m => { m with text := strncpy maxTextLen text, editedAt := env.now })
        (fun _ => rfl) (fun m _ => ?_)
        (fun hid _ => entries_dbEditMessage (hsql _) hid) (fun hid => if_pos hid)
        (fun h' hok => ?_) (fun err h' hne herr => ?_)
      · simp [Entry.edit, Message.entry, eq_comm]
      · simp only [roomEditMessage, hok]
      · simp only [roomEditMessage, herr]
    · simp only [historyStep, Parts, hr, if_false, false_and, not_false_eq_true, iff_true]
      exact hm.agree
  | delete r msgId requester isAdmin =>
    by_cases hr : r ∈ s.2.roomList
    · simp only [historyStep, Parts, hr, if_true, true_and]
      refine hm.change_iff hle hr (f := .delete) (fun m => m.sender = requester ∨ isAdmin)
        (fun m => { m with deleted := true, text := strncpy maxTextLen "[deleted]".toList })
        (fun _ => rfl) (fun m hdel => ?_)
        (fun hid _ => entries_dbDeleteMessage (hsql _) hid) (fun hid => if_pos hid)
        (fun h' hok => ?_) (fun err h' hne herr => ?_)
      · simp [Entry.delete, Message.entry, hdel]
      · simp only [roomDeleteMessage, hok]
      · simp only [roomDeleteMessage, herr]
    · simp only [historyStep, Parts, hr, if_false, false_and, not_false_eq_true, iff_true]
      exact hm.agree
  | deleteRoom r =>
    simp only [Parts, not_false_eq_true, iff_true]
    exact hm.deleteRoom

theorem historyStep_mirrored (hm : Mirrored s.1 s.2) (hpos : 0 < s.2.historySize)
    (hle : s.2.historySize ≤ 1000000) (hsql : ∀ stmt, input.1.sql stmt = .done)
    (hkeep : ¬Parts s input) :
    Mirrored (historyStep s input).1 (historyStep s input).2 :=
  ⟨historyStep_rings hm.toRings hpos hsql, (historyStep_agrees_iff hm hpos hle hsql).mpr hkeep⟩

/-- The message an operation changes. -/
def HistoryOp.changes : HistoryOp → Option ℤ
  | .edit _ msgId _ _ => some msgId
  | .delete _ msgId _ _ => some msgId
  | _ => none

theorem not_parts (hmem : input.1.rowsMem = true) (hid : ∀ msgId ∈ input.2.changes, 0 < msgId) :
    ¬Parts s input := by
  obtain ⟨env, op⟩ := input
  cases op with
  | create n c => exact fun h => Bool.false_ne_true (h.1.symm.trans hmem)
  | add r sender text => exact id
  | edit r msgId requester text => exact fun h => absurd h.2.1 (not_le.mpr (hid _ rfl))
  | delete r msgId requester isAdmin => exact fun h => absurd h.2.1 (not_le.mpr (hid _ rfl))
  | deleteRoom r => exact id

/-- The replay of every live room is what `db_load_history` returns for its name and capacity. -/
def ReplayAgrees (env : Env) (s : Database × Registry) : Prop :=
  ∀ r ∈ s.2.roomList, (historyScan (s.2.rooms r).history).map (Option.map Message.entry) =
    (dbLoadHistory env (s.2.rooms r).roomName (s.2.rooms r).history.cap s.1).map
      fun m => some m.entry

theorem replayAgrees_iff (hm : Rings s.2) (hpos : 0 < s.2.historySize)
    (hle : s.2.historySize ≤ 1000000) (hload : env.sql .loadHistory = .done) :
    ReplayAgrees env s ↔ RingsAgree s.1 s.2 := by
  refine forall₂_congr fun r hr => ?_
  have hcap : (s.2.rooms r).history.cap = s.2.historySize := hm.cap r hr
  have hstart : (s.2.rooms r).history.start < _ := (hm.valid r hr).start_lt
  have hscan : historyScan (s.2.rooms r).history = (s.2.rooms r).history.toList.map some :=
    historyScan_eq (.inr (by omega))
  have hdb := map_entry_dbLoadHistory hload s.1 (s.2.rooms r).roomName
    (show 0 < (s.2.rooms r).history.cap by omega)
  have hring : (historyScan (s.2.rooms r).history).map (Option.map Message.entry) =
      ((s.2.rooms r).history.toList.map Message.entry).map some := by
    rw [hscan, List.map_map, List.map_map]; rfl
  have hrows : (dbLoadHistory env (s.2.rooms r).roomName (s.2.rooms r).history.cap s.1).map
      (fun m => some m.entry) =
      ((s.1.messages.entries (s.2.rooms r).roomName).rtake s.2.historySize).map some := by
    rw [← hcap, ← hdb, List.map_map]; rfl
  rw [hring, hrows]
  exact List.map_inj_right fun _ _ h => Option.some.inj h

/--
Every live room's replay agrees with `db_load_history` of its name and capacity
in id, sender, text and deleted flag, in every state of a run, exactly if no
step of it parts the rings and the rows.
-/
theorem replay_agrees_iff (cfg : Config) (hpos : 1 ≤ cfg.historySize)
    (hle : cfg.historySize ≤ 1000000) (db : Database) (inputs : List (Env × HistoryOp))
    (hsql : ∀ input ∈ inputs, ∀ stmt, input.1.sql stmt = .done) (env : Env)
    (hload : env.sql .loadHistory = .done) :
    (∀ pre, pre <+: inputs → ReplayAgrees env (run historyStep (db, registryInit cfg) pre)) ↔
      Along historyStep (fun s input => ¬Parts s input) (db, registryInit cfg) inputs := by
  let J : Database × Registry → Prop := fun s =>
    Rings s.2 ∧ s.2.historySize = cfg.historySize.toNat
  have hJ (s : Database × Registry) (input : Env × HistoryOp)
      (hsql : ∀ stmt, input.1.sql stmt = .done) (hs : J s) : J (historyStep s input) :=
    ⟨historyStep_rings hs.1 (by have := hs.2; omega) hsql, historyStep_historySize.trans hs.2⟩
  have hagrees (s : Database × Registry) (hs : J s) : ReplayAgrees env s ↔ RingsAgree s.1 s.2 :=
    replayAgrees_iff hs.1 (by have := hs.2; omega) (by have := hs.2; omega) hload
  have hstep (s : Database × Registry) (input : Env × HistoryOp)
      (hsql : ∀ stmt, input.1.sql stmt = .done) (hs : J s) (hi : ReplayAgrees env s) :
      ReplayAgrees env (historyStep s input) ↔ ¬Parts s input :=
    (hagrees _ (hJ s input hsql hs)).trans (historyStep_agrees_iff ⟨hs.1, (hagrees s hs).mp hi⟩
      (by have := hs.2; omega) (by have := hs.2; omega) hsql)
  refine (along_iff_prefixes_of (J := J) hJ
    (fun s input hsql hs hi => (hstep s input hsql hs hi).mpr)
    (fun s input hsql hs hi hc h => hc ((hstep s input hsql hs hi).mp h)) ?_ ?_ hsql).symm
  · refine ⟨?_, if_pos (by omega)⟩
    constructor <;> intro r hr <;> cases hr
  · intro r hr
    cases hr

/-- A room is written, edited, deleted and created again. -/
def rewrittenRun : List (Env × HistoryOp) :=
  [(.calm 0 0 [], .create "lounge".toList 0),
   (.calm 0 0 [], .add 0 "alice".toList "one".toList),
   (.calm 0 0 [], .add 0 "alice".toList "two".toList),
   (.calm 0 0 [], .add 0 "alice".toList "three".toList),
   (.calm 0 0 [], .edit 0 3 "alice".toList "third".toList),
   (.calm 0 0 [], .delete 0 2 "alice".toList false),
   (.calm 0 0 [], .deleteRoom 0),
   (.calm 1 0 [], .create "lounge".toList 0)]

theorem rewrittenRun_agrees :
    ReplayAgrees (.calm 0 0 [])
      (run historyStep (.empty, registryInit ⟨1, 1, 1, 2⟩) rewrittenRun) := by
  refine (replay_agrees_iff ⟨1, 1, 1, 2⟩ (by decide) (by decide) .empty rewrittenRun
    (by simp [rewrittenRun, Env.calm]) (.calm 0 0 []) rfl).mpr ?_ rewrittenRun List.prefix_rfl
  refine (along_of_forall (C := fun input : Env × HistoryOp =>
    input.1.rowsMem = true ∧ ∀ msgId ∈ input.2.changes, 0 < msgId) ?_).imp
      (I := fun _ => True) (fun _ _ _ => trivial) (fun _ _ _ h => not_parts h.1 h.2) trivial
  decide

/-- The room is created again without memory for its rows. -/
def lostRowsRun : List (Env × HistoryOp) :=
  [(.calm 0 0 [], .create "lounge".toList 0),
   (.calm 0 0 [], .add 0 "alice".toList "hello".toList),
   (.calm 0 0 [], .deleteRoom 0),
   ({ Env.calm 1 0 [] with rowsMem := false }, .create "lounge".toList 0)]

/-- A table with a row of a negative id. -/
def oldMessages : Database :=
  { Database.empty with
    messages := ⟨[⟨-5, "lounge".toList, "alice".toList, "hello".toList, 1, false, 0⟩], 0,
      List.pairwise_singleton _ _, List.forall_mem_singleton.mpr (show (-5 : ℤ) ≤ 0 by decide),
      le_rfl⟩ }

/-- The row is loaded and edited. -/
def editedOldRun : List (Env × HistoryOp) :=
  [(.calm 0 0 [], .create "lounge".toList 0),
   (.calm 0 0 [], .edit 0 (-5) "alice".toList "bye".toList)]

theorem lostRowsRun_not_agrees :
    ((∀ input ∈ lostRowsRun, ∀ stmt, input.1.sql stmt = .done) ∧
      ¬ReplayAgrees (.calm 0 0 [])
        (run historyStep (.empty, registryInit ⟨1, 1, 1, 10⟩) lostRowsRun)) ∧
    (∀ input ∈ editedOldRun, ∀ stmt, input.1.sql stmt = .done) ∧
      ¬ReplayAgrees (.calm 0 0 [])
        (run historyStep (oldMessages, registryInit ⟨1, 1, 1, 10⟩) editedOldRun) := by
  refine ⟨⟨by simp [lostRowsRun, Env.calm], fun h => ?_⟩,
    by simp [editedOldRun, Env.calm], fun h => ?_⟩
  · have hreplay := h 1 (by decide +kernel)
    exact absurd hreplay (by decide +kernel)
  · have hreplay := h 0 (by decide +kernel)
    exact absurd hreplay (by decide +kernel)

end ChatServer
