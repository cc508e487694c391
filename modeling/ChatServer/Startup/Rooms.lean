import ChatServer.History.Mirror
import ChatServer.Library.Checked
import ChatServer.Protocol.Fields

/-! # Rooms loaded from the database

`registry_load_persistent_rooms` reads names of rooms into an array of 64 and
makes a room for each that is not live. The query is bounded by the capacity of
the registry, not by the array, and the memory of a room's arrays is not
checked.
-/

namespace ChatServer

open Library Checked

/-- The rows of the table `rooms` that the query selects: the oldest ones. -/
def oldestRooms (maxRooms : ℕ) (db : Database) : List RoomRow :=
  (db.rooms.rows.insertionSort fun r s => r.createdAt ≤ s.createdAt).take maxRooms

/-- The loop of `db_load_rooms` over the result rows. -/
def fillNames (maxRooms : ℕ) : List RoomRow → ℕ → List Text → Except Fault (ℕ × List Text)
  | [], count, rooms => return (count, rooms)
  | row :: rows, count, rooms =>
    if count < maxRooms then do
      let rooms ← writeAt rooms count (strncpy 32 row.name)
      fillNames maxRooms rows (count + 1) rooms
    else return (count, rooms)

/-- `db_load_rooms`; the statement has the outcome `sql`. -/
def dbLoadRooms (sql : Sql) (rooms : List Text) (maxRooms : ℕ) (db : Database) :
    Except Fault (ℕ × List Text) :=
  if maxRooms = 0 then return (0, rooms)
  else fillNames maxRooms (sql.rows (oldestRooms maxRooms db)) 0 rooms

/-- The loop that copies the rows into the history array, which is NULL if it got no memory. -/
def fillHistory (env : Env) (rows : List Message) (history : RingBuffer Message) :
    Except Fault (RingBuffer Message) :=
  if env.historyMem = false ∧ rows ≠ [] then throw .nullPointer
  else return rows.foldl loadMessage history

/--
The room made for a name. An array that got no memory is used like one of
capacity zero: its members are refused, its messages are not stored.
-/
def persistentRoom (env : Env) (roomName : Text) (reg : Registry) (db : Database) :
    Except Fault Room := do
  let history ← fillHistory env (loadedRows env roomName reg.historySize db)
    (.empty zeroMessage (if env.historyMem then reg.historySize else 0))
  return {
    roomName := strncpy maxRoomNameLen roomName
    members := []
    memberCapacity := if env.membersMem then reg.maxMembers else 0
    adminClient := none
    history }

/--
One round of the loop of `registry_load_persistent_rooms`, `none` where it ends.
An address still in use is never handed out, as if the allocation failed.
-/
def loadRoom (env : Env) (roomName : Text) (db : Database) (reg : Registry) :
    Except Fault (Option Registry) :=
  if (findRoom (some roomName) reg).2.isSome then return some reg
  else if reg.roomCapacity ≤ reg.roomList.length then return none
  else match env.roomMem with
    | none => return some reg
    | some r =>
      if r ∈ reg.roomList then return some reg
      else do
        let room ← persistentRoom env roomName reg db
        let reg := reg.setRoom r room
        if reg.roomList.length < reg.roomCapacity then
          return some { reg with roomList := reg.roomList ++ [r] }
        else return some reg

variable (envs : ℕ → Env)

/-- The loop over the names, from name `i` on; round `i` runs in `envs i`. -/
def loadRoomsLoop (rooms : List Text) (db : Database) :
    ℕ → ℕ → Registry → Except Fault Registry
  | 0, _, reg => return reg
  | rounds + 1, i, reg => do
    let roomName ← readAt rooms i
    match ← loadRoom (envs i) roomName db reg with
    | none => return reg
    | some reg => loadRoomsLoop rooms db rounds (i + 1) reg

/-- `registry_load_persistent_rooms`. -/
def registryLoadPersistentRooms (sql : Sql) (db : Database) (reg : Registry) :
    Except Fault (ℕ × Registry) := do
  let (n, rooms) ← dbLoadRooms sql (List.replicate 64 []) reg.roomCapacity db
  let reg ← loadRoomsLoop envs rooms db n 0 reg
  return (n, reg)

/-! ## The array of names -/

section Names

variable {maxRooms : ℕ} {rows : List RoomRow} {rest : List Text}

theorem fillNames_ok (names : List Text) (rows : List RoomRow)
    (hcount : names.length + rows.length ≤ maxRooms)
    (hrest : rows.length ≤ rest.length) :
    fillNames maxRooms rows names.length (names ++ rest) =
      .ok (names.length + rows.length,
        names ++ rows.map (fun row => strncpy 32 row.name) ++ rest.drop rows.length) := by
  induction rows generalizing names rest with
  | nil => simp [fillNames, pure, Except.pure]
  | cons row rows ih =>
    cases rest with
    | nil => cases hrest
    | cons x rest =>
      rw [List.length_cons] at hcount hrest
      rw [List.length_cons] at hrest
      have hlen : (names ++ [strncpy 32 row.name]).length = names.length + 1 := by simp
      rw [fillNames, if_pos (by omega), writeAt_append, ok_bind, ← hlen,
        ih _ (by omega) (by omega), hlen]
      simp [Nat.add_assoc, Nat.add_comm 1]

theorem fillNames_fault (names : List Text) (hcount : names.length + rows.length ≤ maxRooms)
    (hrest : rest.length < rows.length) :
    fillNames maxRooms rows names.length (names ++ rest) = .error .outOfRange := by
  induction rows generalizing names rest with
  | nil => cases hrest
  | cons row rows ih =>
    rw [List.length_cons] at hcount hrest
    cases rest with
    | nil =>
      rw [fillNames, if_pos (by omega), List.append_nil, writeAt_length, error_bind]
    | cons x rest =>
      rw [List.length_cons] at hrest
      have hlen : (names ++ [strncpy 32 row.name]).length = names.length + 1 := by simp
      rw [fillNames, if_pos (by omega), writeAt_append, ok_bind, ← hlen,
        ih _ (by omega) (by omega)]

end Names

/-! ## The rounds -/

/-- The rounds over some names, from round `i` on. -/
def loadRooms (db : Database) : ℕ → List Text → Registry → Except Fault Registry
  | _, [], reg => return reg
  | i, roomName :: names, reg => do
    match ← loadRoom (envs i) roomName db reg with
    | none => return reg
    | some reg => loadRooms db (i + 1) names reg

theorem loadRoomsLoop_eq (db : Database) (pre names post : List Text) (reg : Registry) :
    loadRoomsLoop envs (pre ++ names ++ post) db names.length pre.length reg =
      loadRooms envs db pre.length names reg := by
  induction names generalizing pre reg with
  | nil => rfl
  | cons roomName names ih =>
    have hsplit : pre ++ roomName :: names ++ post = (pre ++ [roomName]) ++ names ++ post := by simp
    have hlen : (pre ++ [roomName]).length = pre.length + 1 := by simp
    rw [List.length_cons, loadRoomsLoop, loadRooms, List.append_assoc, List.cons_append,
      readAt_append, ok_bind]
    cases hround : loadRoom (envs pre.length) roomName db reg with
    | error e => rfl
    | ok o =>
      cases o with
      | none => rfl
      | some reg' =>
        rw [ok_bind, ok_bind]
        dsimp only
        rw [← List.cons_append, ← List.append_assoc, hsplit, ← hlen, ih]

/--
A round as a step on its number and the registry, of which the first `k` take
place. One that ends the loop or goes wrong leaves the registry as it is.
-/
def roundStep (k : ℕ) (db : Database) (s : ℕ × Registry) (roomName : Text) : ℕ × Registry :=
  (s.1 + 1,
    if s.1 < k then
      match loadRoom (envs s.1) roomName db s.2 with
      | .ok (some reg) => reg
      | .ok none => s.2
      | .error _ => s.2
    else s.2)

variable {envs} {env : Env} {db : Database} {reg reg₀ : Registry} {n : Text}
  {seen names pre post : List Text} {r r' : RoomPtr} {k i : ℕ}

/-- The room made is appended to the live ones. -/
def Registry.addRoom (reg : Registry) (r : RoomPtr) (room : Room) : Registry :=
  { reg.setRoom r room with roomList := reg.roomList ++ [r] }

theorem addRoom_of_mem {room : Room} (hr : r ∉ reg.roomList) (hr' : r' ∈ reg.roomList) :
    (reg.addRoom r room).rooms r' = reg.rooms r' :=
  Function.update_of_ne (show r' ≠ r from fun h => hr (h ▸ hr')) _ _

@[simp] theorem addRoom_self {room : Room} : (reg.addRoom r room).rooms r = room :=
  Function.update_self _ _ _

theorem mem_addRoom {room : Room} :
    r' ∈ (reg.addRoom r room).roomList ↔ r' ∈ reg.roomList ∨ r' = r := by
  simp [Registry.addRoom]

/-- A room is live under a name. -/
def Live (reg : Registry) (n : Text) : Prop := ∃ r ∈ reg.roomList, (reg.rooms r).roomName = n

/-- The name has no live room, and a slot is free for one. -/
structure Needed (n : Text) (reg : Registry) : Prop where
  missing : ¬Live reg n
  slot : reg.roomList.length < reg.roomCapacity

/--
The allocator has memory for the room and, if the database has messages of its
name, for the rows and the ring.
-/
structure MemoryFor (env : Env) (n : Text) (db : Database) (reg : Registry) : Prop where
  room : ∃ r ∈ env.roomMem, r ∉ reg.roomList
  history : dbLoadHistory env n reg.historySize db ≠ [] →
    env.rowsMem = true ∧ env.historyMem = true

instance : Decidable (Live reg n) :=
  inferInstanceAs (Decidable (∃ r ∈ reg.roomList, (reg.rooms r).roomName = n))

instance : Decidable (Needed n reg) :=
  decidable_of_iff (¬Live reg n ∧ reg.roomList.length < reg.roomCapacity)
    ⟨fun h => ⟨h.1, h.2⟩, fun h => ⟨h.missing, h.slot⟩⟩

instance : Decidable (MemoryFor env n db reg) :=
  decidable_of_iff ((∃ r ∈ env.roomMem, r ∉ reg.roomList) ∧
      (dbLoadHistory env n reg.historySize db ≠ [] → env.rowsMem = true ∧ env.historyMem = true))
    ⟨fun h => ⟨h.1, h.2⟩, fun h => ⟨h.room, h.history⟩⟩

theorem length_dbLoadHistory_le {limit : ℕ} : (dbLoadHistory env n limit db).length ≤ limit := by
  unfold dbLoadHistory
  split_ifs with hlimit
  · exact Nat.zero_le _
  · refine ((env.sql .loadHistory).rows_sublist _).length_le.trans ?_
    rw [List.length_map, length_rtake]
    exact Nat.min_le_left _ _

theorem copied_of_mem_dbLoadHistory {limit : ℕ} {m : Message}
    (hm : m ∈ dbLoadHistory env n limit db) : copied m = m := by
  unfold dbLoadHistory at hm
  split_ifs at hm
  · cases hm
  · obtain ⟨row, -, rfl⟩ := List.mem_map.mp (Sql.mem_of_mem_rows hm)
    simp [copied, MessageRow.load]

theorem toList_loadedRows {cap : ℕ} :
    ((loadedRows env n cap db).foldl loadMessage (.empty zeroMessage cap)).toList =
      loadedRows env n cap db := by
  have hlen : (loadedRows env n cap db).length ≤ cap :=
    (loadedRows_sublist env n cap db).length_le.trans length_dbLoadHistory_le
  rcases Nat.eq_zero_or_pos cap with rfl | hpos
  · rw [List.eq_nil_of_length_eq_zero (Nat.le_zero.mp hlen)]
    exact RingBuffer.toList_empty _ _
  · obtain ⟨-, -, hlist⟩ := toList_foldl_loadMessage_rows (RingBuffer.valid_empty zeroMessage hpos)
      (loadedRows env n cap db)
    have hcopied : (loadedRows env n cap db).map copied = loadedRows env n cap db :=
      (List.map_congr_left fun m hm => copied_of_mem_dbLoadHistory
        ((loadedRows_sublist env n cap db).subset hm)).trans (List.map_id _)
    rw [hlist, hcopied, RingBuffer.toList_empty, List.nil_append]
    exact rtake_of_length_le hlen

/-- Rows cannot be copied into a ring without memory. Else the room holds the rows loaded. -/
theorem persistentRoom_cases (env : Env) (reg : Registry) (db : Database)
    (hn : badLength maxRoomNameLen n = false) :
    (env.historyMem = false ∧ loadedRows env n reg.historySize db ≠ [] ∧
      persistentRoom env n reg db = .error .nullPointer) ∨
    ∃ room, persistentRoom env n reg db = .ok room ∧ room.roomName = n ∧
      room.history.toList = loadedRows env n reg.historySize db ∧
      (loadedRows env n reg.historySize db ≠ [] → env.historyMem = true) := by
  by_cases hfault : env.historyMem = false ∧ loadedRows env n reg.historySize db ≠ []
  · refine .inl ⟨hfault.1, hfault.2, ?_⟩
    rw [persistentRoom, fillHistory, if_pos hfault]
    rfl
  · refine .inr ⟨_, by rw [persistentRoom, fillHistory, if_neg hfault]; rfl,
      strncpy_of_not_badLength hn, ?_⟩
    cases hmem : env.historyMem with
    | true => exact ⟨toList_loadedRows, fun _ => rfl⟩
    | false =>
      have hnil : loadedRows env n reg.historySize db = [] :=
        not_not.mp fun hne => hfault ⟨hmem, hne⟩
      rw [hnil]
      exact ⟨RingBuffer.toList_empty _ _, fun hne => absurd rfl hne⟩

/-- What a round does: nothing if no room is needed or no memory is left; or make the room. -/
theorem loadRoom_cases (env : Env) (db : Database) (reg : Registry)
    (hn : badLength maxRoomNameLen n = false) :
    (¬Needed n reg ∧ (loadRoom env n db reg = .ok (some reg) ∨
      reg.roomCapacity ≤ reg.roomList.length ∧ loadRoom env n db reg = .ok none)) ∨
    (Needed n reg ∧ (∀ r, env.roomMem = some r → r ∈ reg.roomList) ∧
      loadRoom env n db reg = .ok (some reg)) ∨
    ∃ r, Needed n reg ∧ env.roomMem = some r ∧ r ∉ reg.roomList ∧
      loadRoom env n db reg =
        (persistentRoom env n reg db).map fun room => some (reg.addRoom r room) := by
  unfold loadRoom
  cases hfind : (findRoom (some n) reg).2 with
  | some r =>
    have hroom : findRoom (some n) reg = ((findRoom (some n) reg).1, some r) :=
      Prod.ext rfl hfind
    exact .inl ⟨fun h => h.missing ⟨r, findRoom_some hroom⟩, .inl rfl⟩
  | none =>
    have hlive : ¬Live reg n := fun ⟨r, hr, hname⟩ => findRoom_none hfind hn r hr hname
    by_cases hfull : reg.roomCapacity ≤ reg.roomList.length
    · refine .inl ⟨fun h => absurd h.slot (not_lt.mpr hfull), .inr ⟨hfull, ?_⟩⟩
      simp only [Option.isSome_none, Bool.false_eq_true, if_false, if_pos hfull]
      rfl
    · have hneeded : Needed n reg := ⟨hlive, Nat.lt_of_not_le hfull⟩
      simp only [Option.isSome_none, Bool.false_eq_true, if_false, if_neg hfull]
      cases hmem : env.roomMem with
      | none => exact .inr (.inl ⟨hneeded, by simp, rfl⟩)
      | some r =>
        by_cases hr : r ∈ reg.roomList
        · exact .inr (.inl ⟨hneeded, by simpa using hr, by simp only [if_pos hr]; rfl⟩)
        · refine .inr (.inr ⟨r, hneeded, rfl, hr, ?_⟩)
          simp only [if_neg hr]
          cases persistentRoom env n reg db with
          | error e => rfl
          | ok room =>
            have hslot : (reg.setRoom r room).roomList.length < (reg.setRoom r room).roomCapacity :=
              Nat.lt_of_not_le hfull
            rw [ok_bind]
            simp only [if_pos hslot]
            rfl

/-- A round leaves the registry as it is, or appends the room it makes for a name that needs one. -/
theorem roundStep_cases (envs : ℕ → Env) (k : ℕ) (db : Database) (s : ℕ × Registry)
    (hn : badLength maxRoomNameLen n = false) :
    (roundStep envs k db s n).2 = s.2 ∨
    ∃ r room, s.1 < k ∧ Needed n s.2 ∧ ((envs s.1).roomMem = some r ∧ r ∉ s.2.roomList) ∧
      room.roomName = n ∧ room.history.toList = loadedRows (envs s.1) n s.2.historySize db ∧
      (loadedRows (envs s.1) n s.2.historySize db ≠ [] → (envs s.1).historyMem = true) ∧
      (roundStep envs k db s n).2 = s.2.addRoom r room := by
  unfold roundStep
  split_ifs with hk
  · obtain ⟨-, hround | ⟨-, hround⟩⟩ | ⟨-, -, hround⟩ | ⟨r, hneeded, hmem, hr, hround⟩ :=
      loadRoom_cases (envs s.1) db s.2 hn
    · exact .inl (by simp only [hround])
    · exact .inl (by simp only [hround])
    · exact .inl (by simp only [hround])
    · obtain ⟨-, -, hroom⟩ | ⟨room, hroom, hname, hlist, hring⟩ :=
        persistentRoom_cases (envs s.1) s.2 db hn
      · exact .inl (by simp only [hround, hroom, Except.map])
      · refine .inr ⟨r, room, hk, hneeded, ⟨hmem, hr⟩, hname, hlist, hring, ?_⟩
        simp only [hround, hroom, Except.map]
  · exact .inl rfl

theorem loadedRows_eq_of_mem {cap : ℕ}
    (h : dbLoadHistory env n cap db ≠ [] → env.rowsMem = true) :
    loadedRows env n cap db = dbLoadHistory env n cap db := by
  unfold loadedRows
  split_ifs with hmem
  · rfl
  · exact (not_not.mp fun hne => hmem (h hne)).symm

theorem loadRoom_ok (hn : badLength maxRoomNameLen n = false)
    (hready : Needed n reg → MemoryFor env n db reg) : ∃ o, loadRoom env n db reg = .ok o := by
  obtain ⟨-, hround | ⟨-, hround⟩⟩ | ⟨-, -, hround⟩ | ⟨r, hneeded, -, -, hround⟩ :=
    loadRoom_cases env db reg hn
  · exact ⟨_, hround⟩
  · exact ⟨_, hround⟩
  · exact ⟨_, hround⟩
  · have hmem := (hready hneeded).history
    obtain ⟨hfalse, hrows, -⟩ | ⟨room, hroom, -⟩ := persistentRoom_cases env reg db hn
    · rw [loadedRows_eq_of_mem fun hne => (hmem hne).1] at hrows
      rw [(hmem hrows).2] at hfalse
      cases hfalse
    · exact ⟨some (reg.addRoom r room), by rw [hround, hroom]; rfl⟩

/-- With the memory it needs a round that is needed makes the room. -/
theorem roundStep_made (s : ℕ × Registry) (hn : badLength maxRoomNameLen n = false) (hk : s.1 < k)
    (hneeded : Needed n s.2) (hmem : MemoryFor (envs s.1) n db s.2) :
    ∃ r room, r ∉ s.2.roomList ∧ room.roomName = n ∧
      room.history.toList = dbLoadHistory (envs s.1) n s.2.historySize db ∧
      (roundStep envs k db s n).2 = s.2.addRoom r room := by
  obtain ⟨o, ho⟩ := loadRoom_ok hn fun _ => hmem
  obtain ⟨hnot, -⟩ | ⟨-, hused, -⟩ | ⟨r, -, hr, hfree, hround⟩ :=
    loadRoom_cases (envs s.1) db s.2 hn
  · exact absurd hneeded hnot
  · obtain ⟨r, hr, hfree⟩ := hmem.room
    exact absurd (hused r hr) hfree
  · obtain ⟨-, -, hroom⟩ | ⟨room, hroom, hname, hlist, -⟩ :=
      persistentRoom_cases (envs s.1) s.2 db hn
    · rw [hround, hroom] at ho
      cases ho
    · refine ⟨r, room, hfree, hname, ?_, ?_⟩
      · rw [hlist, loadedRows_eq_of_mem fun hne => (hmem.history hne).1]
      · simp only [roundStep, if_pos hk, hround, hroom, Except.map]

/-! ## What the rounds keep -/

/-- The registry after some rounds, from the registry before them. -/
structure RoomsKept (reg₀ : Registry) (seen : List Text) (reg : Registry) : Prop where
  roomCapacity : reg.roomCapacity = reg₀.roomCapacity
  historySize : reg.historySize = reg₀.historySize
  bounded : reg.roomList.length ≤ reg.roomCapacity
  kept : ∀ r ∈ reg₀.roomList, r ∈ reg.roomList ∧ reg.rooms r = reg₀.rooms r
  /-- A room that was made has one of the names, and no other live room has it. -/
  made : ∀ r ∈ reg.roomList, r ∉ reg₀.roomList → (reg.rooms r).roomName ∈ seen ∧
    ∀ r' ∈ reg.roomList, (reg.rooms r').roomName = (reg.rooms r).roomName → r' = r

namespace RoomsKept

theorem start (hcap : reg.roomList.length ≤ reg.roomCapacity) : RoomsKept reg [] reg where
  roomCapacity := rfl
  historySize := rfl
  bounded := hcap
  kept := fun _ hr => ⟨hr, rfl⟩
  made := fun _ hr hn => absurd hr hn

theorem skip (h : RoomsKept reg₀ seen reg) : RoomsKept reg₀ (seen ++ [n]) reg :=
  ⟨h.roomCapacity, h.historySize, h.bounded, h.kept, fun r hr hnew =>
    ⟨List.mem_append_left _ (h.made r hr hnew).1, (h.made r hr hnew).2⟩⟩

theorem add (h : RoomsKept reg₀ seen reg) {room : Room} (hr : r ∉ reg.roomList)
    (hname : room.roomName = n) (hneeded : Needed n reg) :
    RoomsKept reg₀ (seen ++ [n]) (reg.addRoom r room) where
  roomCapacity := h.roomCapacity
  historySize := h.historySize
  bounded := by
    simp only [Registry.addRoom, List.length_append, List.length_singleton]
    exact hneeded.slot
  kept := by
    intro r' hr'
    obtain ⟨hmem, heq⟩ := h.kept r' hr'
    exact ⟨mem_addRoom.mpr (.inl hmem), (addRoom_of_mem hr hmem).trans heq⟩
  made := by
    intro r' hr' hnew
    rcases mem_addRoom.mp hr' with hold | rfl
    · obtain ⟨hseen, honly⟩ := h.made r' hold hnew
      rw [addRoom_of_mem hr hold]
      refine ⟨List.mem_append_left _ hseen, fun r'' hr'' hsame => ?_⟩
      rcases mem_addRoom.mp hr'' with hr'' | rfl
      · rw [addRoom_of_mem hr hr''] at hsame
        exact honly r'' hr'' hsame
      · rw [addRoom_self, hname] at hsame
        exact absurd ⟨r', hold, hsame.symm⟩ hneeded.missing
    · rw [addRoom_self, hname]
      refine ⟨by simp, fun r'' hr'' hsame => ?_⟩
      rcases mem_addRoom.mp hr'' with hr'' | rfl
      · rw [addRoom_of_mem hr hr''] at hsame
        exact absurd ⟨r'', hr'', hsame⟩ hneeded.missing
      · rfl

theorem run (h : RoomsKept reg₀ seen reg) (envs : ℕ → Env) (k : ℕ) (db : Database)
    (hnames : ∀ n ∈ names, badLength maxRoomNameLen n = false) (i : ℕ) :
    RoomsKept reg₀ (seen ++ names) (run (roundStep envs k db) (i, reg) names).2 := by
  induction names generalizing seen reg i with
  | nil => rwa [List.append_nil]
  | cons n names ih =>
    obtain ⟨hn, hnames⟩ := List.forall_mem_cons.mp hnames
    have hsplit : seen ++ n :: names = (seen ++ [n]) ++ names := by simp
    rw [run_cons, hsplit]
    have hround : RoomsKept reg₀ (seen ++ [n]) (roundStep envs k db (i, reg) n).2 := by
      obtain hsame | ⟨r, room, -, hneeded, ⟨-, hr⟩, hname, -, -, hadd⟩ :=
        roundStep_cases envs k db (i, reg) hn
      · rw [hsame]
        exact h.skip
      · rw [hadd]
        exact h.add hr hname hneeded
    exact ih hround hnames (i + 1)

end RoomsKept

theorem run_roundStep_fst (envs : ℕ → Env) (k : ℕ) (db : Database) (s : ℕ × Registry)
    (names : List Text) :
    (run (roundStep envs k db) s names).1 = s.1 + names.length := by
  induction names generalizing s with
  | nil => rfl
  | cons n names ih =>
    rw [run_cons, ih, List.length_cons]
    simp only [roundStep]
    omega

theorem run_roundStep_of_le (envs : ℕ → Env) (db : Database) (names : List Text)
    (reg : Registry) (hk : k ≤ i) :
    (run (roundStep envs k db) (i, reg) names).2 = reg := by
  induction names generalizing i with
  | nil => rfl
  | cons n names ih =>
    have hround : roundStep envs k db (i, reg) n = (i + 1, reg) := by
      simp only [roundStep, if_neg (not_lt.mpr hk)]
    rw [run_cons, hround, ih (by omega)]

theorem run_roundStep_full (hfull : reg.roomCapacity ≤ reg.roomList.length)
    (hnames : ∀ n ∈ names, badLength maxRoomNameLen n = false) :
    (run (roundStep envs k db) (i, reg) names).2 = reg := by
  induction names generalizing i with
  | nil => rfl
  | cons n names ih =>
    obtain ⟨hn, hnames⟩ := List.forall_mem_cons.mp hnames
    have hround : (roundStep envs k db (i, reg) n).2 = reg := by
      refine (roundStep_cases envs k db (i, reg) hn).resolve_right ?_
      rintro ⟨r, room, -, hneeded, -⟩
      exact absurd hneeded.slot (not_lt.mpr hfull)
    have hsame : roundStep envs k db (i, reg) n = (i + 1, reg) := Prod.ext rfl hround
    rw [run_cons, hsame, ih hnames]

theorem loadRooms_cases (envs : ℕ → Env) (db : Database) (reg : Registry)
    (hnames : ∀ n ∈ names, badLength maxRoomNameLen n = false)
    (hk : i + names.length ≤ k) :
    loadRooms envs db i names reg = .ok (run (roundStep envs k db) (i, reg) names).2 ∨
    (∃ e, loadRooms envs db i names reg = .error e) ∧
      ¬Along (roundStep envs k db) (fun s n => ∃ o, loadRoom (envs s.1) n db s.2 = .ok o)
        (i, reg) names := by
  induction names generalizing i reg with
  | nil => exact .inl rfl
  | cons n names ih =>
    obtain ⟨-, hnames'⟩ := List.forall_mem_cons.mp hnames
    rw [List.length_cons] at hk
    rw [loadRooms, run_cons]
    cases hround : loadRoom (envs i) n db reg with
    | error e => exact .inr ⟨⟨e, rfl⟩, fun h => by simpa [hround] using h.1⟩
    | ok o =>
      have hi : i < k := by omega
      cases o with
      | none =>
        have hfull : reg.roomCapacity ≤ reg.roomList.length := by
          by_contra hlt
          obtain ⟨-, h | ⟨h, -⟩⟩ | ⟨-, -, h⟩ | ⟨r, -, -, -, h⟩ :=
            loadRoom_cases (envs i) db reg (hnames n List.mem_cons_self)
          · rw [hround] at h
            cases h
          · exact hlt h
          · rw [hround] at h
            cases h
          · rw [hround] at h
            cases hroom : persistentRoom (envs i) n reg db with
            | error e => rw [hroom] at h; cases h
            | ok room => rw [hroom] at h; cases h
        have hstep : roundStep envs k db (i, reg) n = (i + 1, reg) := by
          simp only [roundStep, if_pos hi, hround]
        rw [hstep, run_roundStep_full hfull hnames']
        exact .inl rfl
      | some reg' =>
        have hstep : roundStep envs k db (i, reg) n = (i + 1, reg') := by
          simp only [roundStep, if_pos hi, hround]
        rw [hstep, ok_bind]
        refine (ih reg' hnames' (by omega)).imp_right fun ⟨he, hnot⟩ => ⟨he, fun h => hnot ?_⟩
        rw [← hstep]
        exact h.2

/-! ## Loading -/

/-- The names of the rooms that are to be loaded, in the order of their creation. -/
def oldestNames (db : Database) (reg : Registry) : List Text :=
  (oldestRooms reg.roomCapacity db).map RoomRow.name

/-- The rows that the query delivers. -/
def deliveredRooms (sql : Sql) (db : Database) (reg : Registry) : List RoomRow :=
  sql.rows (oldestRooms reg.roomCapacity db)

/-- A room of the name is live, which was live before or has the history of the database. -/
def Loaded (env : Env) (n : Text) (db : Database) (reg₀ reg : Registry) : Prop :=
  ∃ r ∈ reg.roomList, (reg.rooms r).roomName = n ∧
    (r ∈ reg₀.roomList ∨
      (reg.rooms r).history.toList = dbLoadHistory env n reg₀.historySize db)

/-- The rounds of the loop, as many as the query delivers rows. -/
abbrev rounds (envs : ℕ → Env) (sql : Sql) (db : Database) (reg : Registry) :
    ℕ × Registry → Text → ℕ × Registry :=
  roundStep envs (deliveredRooms sql db reg).length db

/--
Loading ends without a fault, keeps what is live, and loads each of the oldest
rooms in whose turn a slot is free.
-/
def LoadsRooms (envs : ℕ → Env) (sql : Sql) (db : Database) (reg : Registry) : Prop :=
  ∃ count reg', registryLoadPersistentRooms envs sql db reg = .ok (count, reg') ∧
    RoomsKept reg (oldestNames db reg) reg' ∧
    ∀ pre n post, oldestNames db reg = pre ++ n :: post →
      let turn := (run (rounds envs sql db reg) (0, reg) pre).2
      turn.roomList.length < turn.roomCapacity → Loaded (envs pre.length) n db reg reg'

/-- A name that needs a room is delivered, and there is memory for the room. -/
def RoundReady (envs : ℕ → Env) (sql : Sql) (db : Database) (reg : Registry) (s : ℕ × Registry)
    (n : Text) : Prop :=
  Needed n s.2 → s.1 < (deliveredRooms sql db reg).length ∧ MemoryFor (envs s.1) n db s.2

variable {sql : Sql}

instance (s : ℕ × Registry) : Decidable (RoundReady envs sql db reg s n) :=
  inferInstanceAs (Decidable (Needed n s.2 → _ ∧ MemoryFor (envs s.1) n db s.2))

theorem length_deliveredRooms_le (sql : Sql) (db : Database) (reg : Registry) :
    (deliveredRooms sql db reg).length ≤ reg.roomCapacity :=
  (sql.rows_sublist _).length_le.trans (List.length_take_le _ _)

theorem map_name_deliveredRooms (sql : Sql) (db : Database) (reg : Registry) :
    (deliveredRooms sql db reg).map RoomRow.name =
      (oldestNames db reg).take (deliveredRooms sql db reg).length := by
  have hprefix : deliveredRooms sql db reg <+: oldestRooms reg.roomCapacity db := by
    unfold deliveredRooms
    cases sql with
    | done => exact List.prefix_rfl
    | prepareFailed => exact List.nil_prefix
    | stepFailed m => exact List.take_prefix m _
  rw [oldestNames, ← List.map_take, ← List.prefix_iff_eq_take.mp hprefix]

theorem mem_of_mem_oldestNames (h : n ∈ oldestNames db reg) :
    ∃ row ∈ db.rooms.rows, row.name = n := by
  obtain ⟨row, hrow, rfl⟩ := List.mem_map.mp h
  exact ⟨row, (List.mem_insertionSort _).mp (List.mem_of_mem_take hrow), rfl⟩

theorem oldestNames_nodup : (oldestNames db reg).Nodup := by
  have hperm := (List.perm_insertionSort (fun r s : RoomRow => r.createdAt ≤ s.createdAt)
    db.rooms.rows).map RoomRow.name
  exact (hperm.nodup_iff.mpr db.rooms.nodup).sublist ((List.take_sublist _ _).map _)

theorem dbLoadRooms_eq (rooms : List Text) : dbLoadRooms sql rooms reg.roomCapacity db =
    fillNames reg.roomCapacity (deliveredRooms sql db reg) 0 rooms := by
  have hle := length_deliveredRooms_le sql db reg
  rw [dbLoadRooms]
  split_ifs with hzero
  · rw [List.eq_nil_of_length_eq_zero (show (deliveredRooms sql db reg).length = 0 by omega)]
    rfl
  · rfl

theorem registryLoad_fault (h : 64 < (deliveredRooms sql db reg).length) :
    registryLoadPersistentRooms envs sql db reg = .error .outOfRange := by
  have hfill : dbLoadRooms sql (List.replicate 64 []) reg.roomCapacity db = .error .outOfRange :=
    (dbLoadRooms_eq _).trans (fillNames_fault []
      (by simpa using length_deliveredRooms_le sql db reg) (by simpa using h))
  rw [registryLoadPersistentRooms, hfill, error_bind]

section Loading

variable (hgood : ∀ row ∈ db.rooms.rows, badLength maxRoomNameLen row.name = false)

include hgood

theorem oldestNames_good (reg : Registry) :
    ∀ n ∈ oldestNames db reg, badLength maxRoomNameLen n = false := by
  intro n hn
  obtain ⟨row, hrow, rfl⟩ := mem_of_mem_oldestNames hn
  exact hgood row hrow

theorem registryLoad_eq (h : (deliveredRooms sql db reg).length ≤ 64) :
    registryLoadPersistentRooms envs sql db reg =
      (loadRooms envs db 0 ((deliveredRooms sql db reg).map RoomRow.name) reg).map
        fun reg' => ((deliveredRooms sql db reg).length, reg') := by
  have hcopy : (deliveredRooms sql db reg).map (fun row => strncpy 32 row.name) =
      (deliveredRooms sql db reg).map RoomRow.name :=
    List.map_congr_left fun row hrow => strncpy_of_not_badLength (hgood row
      ((List.mem_insertionSort _).mp (List.mem_of_mem_take (Sql.mem_of_mem_rows hrow))))
  have hfill := fillNames_ok [] (deliveredRooms sql db reg)
    (by simpa using length_deliveredRooms_le sql db reg)
    (show _ ≤ (List.replicate 64 ([] : Text)).length by simpa using h)
  have hloop := loadRoomsLoop_eq envs db [] ((deliveredRooms sql db reg).map RoomRow.name)
    ((List.replicate 64 []).drop (deliveredRooms sql db reg).length) reg
  rw [hcopy] at hfill
  simp only [List.length_nil, List.nil_append, List.length_map, Nat.zero_add] at hfill hloop
  rw [registryLoadPersistentRooms, dbLoadRooms_eq, hfill, ok_bind]
  dsimp only
  rw [hloop]
  cases loadRooms envs db 0 ((deliveredRooms sql db reg).map RoomRow.name) reg <;> rfl

/-- Loading goes through the rounds, unless one goes wrong. -/
theorem registryLoad_cases (envs : ℕ → Env) (h : (deliveredRooms sql db reg).length ≤ 64) :
    registryLoadPersistentRooms envs sql db reg = .ok ((deliveredRooms sql db reg).length,
        (run (rounds envs sql db reg) (0, reg) (oldestNames db reg)).2) ∨
    (∃ e, registryLoadPersistentRooms envs sql db reg = .error e) ∧
      ¬Along (rounds envs sql db reg)
        (fun s n => s.1 < (deliveredRooms sql db reg).length →
          ∃ o, loadRoom (envs s.1) n db s.2 = .ok o) (0, reg) (oldestNames db reg) := by
  have hnames := map_name_deliveredRooms sql db reg
  have hlen : ((deliveredRooms sql db reg).map RoomRow.name).length =
      (deliveredRooms sql db reg).length := List.length_map ..
  have hsplit := List.take_append_drop (deliveredRooms sql db reg).length (oldestNames db reg)
  rw [← hnames] at hsplit
  rw [registryLoad_eq hgood h]
  have hgood' : ∀ n ∈ (deliveredRooms sql db reg).map RoomRow.name,
      badLength maxRoomNameLen n = false := by
    intro n hn
    rw [hnames] at hn
    exact oldestNames_good hgood reg n (List.mem_of_mem_take hn)
  rcases loadRooms_cases envs db reg (i := 0) (k := (deliveredRooms sql db reg).length) hgood'
    (by omega) with hok | ⟨⟨e, he⟩, hnot⟩
  · refine .inl ?_
    have hfst := run_roundStep_fst envs (deliveredRooms sql db reg).length db (0, reg)
      ((deliveredRooms sql db reg).map RoomRow.name)
    rw [hok, ← hsplit, run_append]
    have hrest := run_roundStep_of_le envs db
      ((oldestNames db reg).drop (deliveredRooms sql db reg).length)
      (run (rounds envs sql db reg) (0, reg) ((deliveredRooms sql db reg).map RoomRow.name)).2
      (k := (deliveredRooms sql db reg).length) (i := 0 + (deliveredRooms sql db reg).length)
      (by omega)
    rw [hlen] at hfst
    rw [show run (rounds envs sql db reg) (0, reg) ((deliveredRooms sql db reg).map RoomRow.name) =
      (0 + (deliveredRooms sql db reg).length, _) from Prod.ext hfst rfl, hrest]
    rfl
  · refine .inr ⟨⟨e, by rw [he]; rfl⟩, fun hall => hnot ?_⟩
    rw [← hsplit, along_append] at hall
    refine along_iff_forall.mpr fun pre n hpre => ?_
    refine along_iff_forall.mp hall.1 pre n hpre ?_
    have hlt := hpre.length_le
    rw [run_roundStep_fst, List.length_append, List.length_singleton] at *
    simp only
    omega

theorem rounds_kept (envs : ℕ → Env) (sql : Sql) (reg : Registry)
    (hcap : reg₀.roomList.length ≤ reg₀.roomCapacity)
    (hsub : ∀ n ∈ names, n ∈ oldestNames db reg) (i : ℕ) :
    RoomsKept reg₀ names (run (rounds envs sql db reg) (i, reg₀) names).2 := by
  have hrun := (RoomsKept.start hcap).run envs (deliveredRooms sql db reg).length db
    (fun n hn => oldestNames_good hgood reg n (hsub n hn)) i
  rwa [List.nil_append] at hrun

/-- The turn of a name: the registry before its round and after it, and at the end. -/
structure NameTurn (envs : ℕ → Env) (sql : Sql) (db : Database) (reg : Registry) (pre : List Text)
    (n : Text) (post : List Text) (s t : ℕ × Registry) (final : Registry) : Prop where
  position : s.1 = pre.length
  next : rounds envs sql db reg s n = t
  before : RoomsKept reg pre s.2
  round : RoomsKept s.2 [n] t.2
  after : RoomsKept t.2 post final
  whole : RoomsKept reg (pre ++ n :: post) final

theorem nameTurn (envs : ℕ → Env) (sql : Sql) (hcap : reg.roomList.length ≤ reg.roomCapacity)
    (hsplit : oldestNames db reg = pre ++ n :: post) :
    let s := run (rounds envs sql db reg) (0, reg) pre
    NameTurn envs sql db reg pre n post s (rounds envs sql db reg s n)
      (run (rounds envs sql db reg) (0, reg) (oldestNames db reg)).2 := by
  intro s
  have hbefore : RoomsKept reg pre s.2 :=
    rounds_kept hgood envs sql reg hcap (fun n hn => by simp [hsplit, hn]) 0
  have hround : RoomsKept s.2 [n] (rounds envs sql db reg s n).2 := by
    have hone : ∀ m ∈ [n], m ∈ oldestNames db reg := fun m hm => by
      simp [hsplit, List.mem_singleton.mp hm]
    have hstep := rounds_kept hgood envs sql reg hbefore.bounded hone s.1
    rwa [run_cons, run_nil, Prod.mk.eta] at hstep
  refine ⟨(run_roundStep_fst envs _ db (0, reg) pre).trans (Nat.zero_add _), rfl, hbefore, hround,
    ?_, ?_⟩
  · rw [hsplit, run_append, run_cons]
    exact rounds_kept hgood envs sql reg hround.bounded (fun n hn => by simp [hsplit, hn]) _
  · rw [← hsplit]
    exact rounds_kept hgood envs sql reg hcap (fun _ h => h) 0

omit hgood in
theorem NameTurn.ready {s t : ℕ × Registry} {final : Registry}
    (hn : badLength maxRoomNameLen n = false) (hpost : n ∉ post)
    (h : NameTurn envs sql db reg pre n post s t final)
    (hloaded : s.2.roomList.length < s.2.roomCapacity → Loaded (envs pre.length) n db reg final) :
    RoundReady envs sql db reg s n := by
  intro hneeded
  obtain ⟨r, hr, hname, hor⟩ := hloaded hneeded.slot
  have hnew : r ∉ s.2.roomList := by
    intro hold
    obtain ⟨hmem, hsame⟩ := h.round.kept r hold
    rw [(h.after.kept r hmem).2, hsame] at hname
    exact hneeded.missing ⟨r, hold, hname⟩
  have hnew₀ : r ∉ reg.roomList := fun hr => hnew (h.before.kept r hr).1
  obtain hsame | ⟨r', room, hk, -, hmem, hroom, hlist, hring, hadd⟩ :=
    roundStep_cases envs (deliveredRooms sql db reg).length db s hn
  · have hstays : t.2 = s.2 := (congrArg Prod.snd h.next).symm.trans hsame
    have hlater := (h.after.made r hr (hstays ▸ hnew)).1
    exact absurd (hname ▸ hlater) hpost
  · have hmade : t.2 = s.2.addRoom r' room := (congrArg Prod.snd h.next).symm.trans hadd
    obtain ⟨hr', hsame⟩ := h.after.kept r' (by rw [hmade]; exact mem_addRoom.mpr (.inr rfl))
    rw [hmade, addRoom_self] at hsame
    obtain rfl : r' = r := by
      refine (h.whole.made r hr hnew₀).2 r' hr' ?_
      rw [hsame, hroom, hname]
    have hrows : loadedRows (envs s.1) n s.2.historySize db =
        dbLoadHistory (envs s.1) n s.2.historySize db := by
      rw [← hlist, ← hsame, h.before.historySize, h.position]
      exact hor.resolve_left hnew₀
    refine ⟨hk, ⟨r', hmem⟩, fun hne => ?_⟩
    rw [← hrows] at hne
    refine ⟨?_, hring hne⟩
    by_contra hfalse
    exact hne (if_neg hfalse)

omit hgood in
theorem NameTurn.loaded {s t : ℕ × Registry} {final : Registry}
    (hn : badLength maxRoomNameLen n = false) (hpre : n ∉ pre)
    (h : NameTurn envs sql db reg pre n post s t final)
    (hready : RoundReady envs sql db reg s n) (hslot : s.2.roomList.length < s.2.roomCapacity) :
    Loaded (envs pre.length) n db reg final := by
  by_cases hlive : Live s.2 n
  · obtain ⟨r, hr, hname⟩ := hlive
    have hold : r ∈ reg.roomList := by
      by_contra hnew
      exact hpre (hname ▸ (h.before.made r hr hnew).1)
    obtain ⟨hmem, hsame⟩ := h.round.kept r hr
    refine ⟨r, (h.after.kept r hmem).1, ?_, .inl hold⟩
    rw [(h.after.kept r hmem).2, hsame, hname]
  · obtain ⟨hk, hmem⟩ := hready ⟨hlive, hslot⟩
    obtain ⟨r, room, -, hname, hlist, hadd⟩ := roundStep_made s hn hk ⟨hlive, hslot⟩ hmem
    have hmade : t.2 = s.2.addRoom r room := (congrArg Prod.snd h.next).symm.trans hadd
    obtain ⟨hr, hsame⟩ := h.after.kept r (by rw [hmade]; exact mem_addRoom.mpr (.inr rfl))
    rw [hmade, addRoom_self] at hsame
    refine ⟨r, hr, by rw [hsame, hname], .inr ?_⟩
    rw [hsame, hlist, h.before.historySize, h.position]

/-- The room of a name is loaded in its turn exactly if the round is ready for it. -/
theorem loaded_iff_ready (hcap : reg.roomList.length ≤ reg.roomCapacity)
    (hsplit : oldestNames db reg = pre ++ n :: post) :
    let s := run (rounds envs sql db reg) (0, reg) pre
    (s.2.roomList.length < s.2.roomCapacity → Loaded (envs pre.length) n db reg
      (run (rounds envs sql db reg) (0, reg) (oldestNames db reg)).2) ↔
      RoundReady envs sql db reg s n := by
  intro s
  have hturn := nameTurn hgood envs sql hcap hsplit
  have hn : badLength maxRoomNameLen n = false :=
    oldestNames_good hgood reg n (by simp [hsplit])
  have hnodup : (pre ++ n :: post).Nodup := hsplit ▸ oldestNames_nodup
  obtain ⟨-, htail, hdisjoint⟩ := List.nodup_append.mp hnodup
  exact ⟨hturn.ready hn (List.nodup_cons.mp htail).1,
    hturn.loaded hn fun hmem => hdisjoint n hmem n List.mem_cons_self rfl⟩

end Loading

/-- A database with 65 rooms. -/
def manyRooms : Database :=
  { Database.empty with
    rooms :=
      ⟨(List.range 65).map fun i : ℕ => ⟨decimal i, "alice".toList, i⟩, by
        rw [List.map_map]
        exact List.nodup_range.map fun i j hij => decimal_inj hij⟩ }

theorem manyRooms_names :
    ∀ row ∈ manyRooms.rooms.rows, badLength maxRoomNameLen row.name = false := by
  decide +kernel

/--
The rooms are loaded as they should be exactly if the query delivers at most 64
rows, and in each round that needs a room the name is delivered and there is
memory for the room.
-/
theorem loadsRooms_iff (envs : ℕ → Env) (sql : Sql) (db : Database) (reg : Registry)
    (hcap : reg.roomList.length ≤ reg.roomCapacity)
    (hgood : ∀ row ∈ db.rooms.rows, badLength maxRoomNameLen row.name = false) :
    LoadsRooms envs sql db reg ↔ (deliveredRooms sql db reg).length ≤ 64 ∧
      Along (rounds envs sql db reg) (RoundReady envs sql db reg) (0, reg)
        (oldestNames db reg) := by
  constructor
  · rintro ⟨count, final, hload, -, hloaded⟩
    have hlen : (deliveredRooms sql db reg).length ≤ 64 := by
      by_contra hlt
      rw [registryLoad_fault (Nat.lt_of_not_le hlt)] at hload
      cases hload
    have hrun : (run (rounds envs sql db reg) (0, reg) (oldestNames db reg)).2 = final := by
      rcases registryLoad_cases hgood envs hlen with hok | ⟨⟨e, he⟩, -⟩
      · rw [hok] at hload
        exact (Prod.ext_iff.mp (Except.ok.inj hload)).2
      · rw [he] at hload
        cases hload
    refine ⟨hlen, along_iff_forall.mpr fun pre n hpre => ?_⟩
    obtain ⟨post, hsplit⟩ := hpre
    have hsplit : oldestNames db reg = pre ++ n :: post := by
      rw [← hsplit, List.append_assoc, List.singleton_append]
    exact (loaded_iff_ready hgood hcap hsplit).mp (hrun.symm ▸ hloaded pre n post hsplit)
  · rintro ⟨hlen, hready⟩
    have hturn (pre : List Text) (n : Text) (post : List Text)
        (hsplit : oldestNames db reg = pre ++ n :: post) :
        RoundReady envs sql db reg (run (rounds envs sql db reg) (0, reg) pre) n :=
      along_iff_forall.mp hready pre n ⟨post, by simp [hsplit]⟩
    refine ⟨_, _, (registryLoad_cases hgood envs hlen).resolve_right ?_,
      rounds_kept hgood envs sql reg hcap (fun _ h => h) 0,
      fun pre n post hsplit => (loaded_iff_ready hgood hcap hsplit).mpr (hturn pre n post hsplit)⟩
    rintro ⟨-, hnot⟩
    refine hnot (along_iff_forall.mpr fun pre n hpre _ => ?_)
    obtain ⟨post, hsplit⟩ := hpre
    have hsplit : oldestNames db reg = pre ++ n :: post := by
      rw [← hsplit, List.append_assoc, List.singleton_append]
    exact loadRoom_ok (oldestNames_good hgood reg n (by simp [hsplit]))
      fun hneeded => (hturn pre n post hsplit hneeded).2

/-- Three rooms, two of them with messages. -/
def threeRooms : Database :=
  { Database.empty with
    rooms := ⟨[⟨"hall".toList, "bob".toList, 7⟩, ⟨"lounge".toList, "alice".toList, 3⟩,
      ⟨"attic".toList, "bob".toList, 9⟩], by decide⟩
    messages := ⟨[⟨1, "hall".toList, "bob".toList, "hi".toList, 8, false, 0⟩,
      ⟨2, "lounge".toList, "alice".toList, "hello".toList, 8, false, 0⟩,
      ⟨3, "hall".toList, "alice".toList, "hi bob".toList, 9, false, 0⟩], 3, by decide, by decide,
      by decide⟩ }

/-- A registry of three slots, in which the lounge is live. -/
def loungeLive : Registry :=
  (createRoom (.calm 0 0 []) (some "lounge".toList) (some 0) threeRooms
    (registryInit ⟨3, 4, 4, 10⟩)).2.2

theorem threeRooms_loaded :
    LoadsRooms (fun i => .calm (i + 1) 0 []) .done threeRooms loungeLive :=
  (loadsRooms_iff _ _ _ _ (by decide +kernel) (by decide +kernel)).mpr
    ⟨by decide +kernel, by decide +kernel⟩

/-- A registry of 65 rooms gets the name of the last one behind the array. -/
theorem not_loadsRooms : ¬∀ (cfg : Config) (envs : ℕ → Env) (sql : Sql) (db : Database)
    (reg : Registry), reg.roomCapacity = (registryInit cfg).roomCapacity →
      reg.roomList.length ≤ reg.roomCapacity →
      (∀ row ∈ db.rooms.rows, badLength maxRoomNameLen row.name = false) →
      LoadsRooms envs sql db reg := by
  intro h
  obtain ⟨n, reg', hload, -⟩ := h ⟨65, 64, 16, 10⟩ (fun i => .calm i 0 []) .done manyRooms
    (registryInit ⟨65, 64, 16, 10⟩) rfl (Nat.zero_le _) manyRooms_names
  have hlen : (deliveredRooms .done manyRooms (registryInit ⟨65, 64, 16, 10⟩)).length = 65 := by
    simp [deliveredRooms, oldestRooms, manyRooms, registryInit]
  rw [registryLoad_fault (by omega)] at hload
  cases hload

end ChatServer
