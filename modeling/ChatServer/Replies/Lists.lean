import ChatServer.Library.Run
import ChatServer.Server.Dispatch

/-! # Offsets of the list replies

When ROOMS, WHO and SESSIONS print inside their line buffer. The pages are
guarded by 32 bytes left, which covers the name of a room but not an entry of
WHO, and the plain lists are not guarded at all.
-/

namespace ChatServer

open Library

variable {entries : List Text} {b : ListBuf} {cmd : Cmd} {word : Text}

/-- Every print starts within the buffer. -/
def ListBuf.Bounded (b : ListBuf) : Prop := ∀ off ∈ b.offsets, off ≤ maxLineLen

/-- The length of texts printed one after another. -/
def printedLen (entries : List Text) : ℕ := (entries.map List.length).sum

/-- The entry that leaves fewer than 32 bytes does not leave fewer than none. -/
def PageFits (off : ℕ) (entries : List Text) : Prop :=
  ∀ k < entries.length, off + printedLen (entries.take k) < maxLineLen - 32 →
    off + printedLen (entries.take (k + 1)) ≤ maxLineLen

@[simp] theorem printedLen_nil : printedLen [] = 0 := rfl

@[simp] theorem printedLen_cons (entry : Text) :
    printedLen (entry :: entries) = entry.length + printedLen entries := rfl

namespace ListBuf

theorem bounded_print {piece : Text} :
    (b.print piece).Bounded ↔ b.Bounded ∧ b.off ≤ maxLineLen := by
  simp [Bounded, print, or_imp, forall_and]

theorem bounded_printAll {last : Text} :
    ((b.printAll entries).print last).Bounded ↔
      b.Bounded ∧ b.off + printedLen entries ≤ maxLineLen := by
  induction entries generalizing b with
  | nil => simp [printAll, bounded_print]
  | cons entry entries ih =>
    have hcons : b.printAll (entry :: entries) = (b.print entry).printAll entries := rfl
    rw [hcons, ih, bounded_print, print, printedLen_cons]
    simp only
    constructor
    · rintro ⟨⟨hb, -⟩, hsum⟩
      exact ⟨hb, by omega⟩
    · rintro ⟨hb, hsum⟩
      exact ⟨⟨hb, by omega⟩, by omega⟩

theorem pageFits_cons {entry : Text} {off : ℕ} (hoff : off < maxLineLen - 32) :
    PageFits off (entry :: entries) ↔
      off + entry.length ≤ maxLineLen ∧ PageFits (off + entry.length) entries := by
  constructor
  · intro h
    refine ⟨by simpa using h 0 (by simp) (by simpa using hoff), fun k hk hlt => ?_⟩
    have := h (k + 1) (by simpa using hk)
    simp only [List.take_succ_cons, printedLen_cons, ← Nat.add_assoc] at this
    exact this hlt
  · rintro ⟨hentry, hrest⟩ k hk hlt
    cases k with
    | zero => simpa using hentry
    | succ k =>
      simp only [List.take_succ_cons, printedLen_cons, ← Nat.add_assoc] at hlt ⊢
      exact hrest k (by simpa using hk) hlt

theorem pageFits_of_ge {off : ℕ} (hoff : maxLineLen - 32 ≤ off) : PageFits off entries :=
  fun _ _ hlt => absurd hlt (by omega)

/-- A page stays inside exactly if the entry that ends it does. -/
theorem bounded_printGuarded {last : Text} (hoff : b.off < maxLineLen - 32) :
    ((ListBuf.printGuarded entries b).print last).Bounded ↔
      b.Bounded ∧ PageFits b.off entries := by
  induction entries generalizing b with
  | nil =>
    rw [printGuarded, bounded_print]
    exact and_congr_right fun _ => iff_of_true (by omega) fun k hk => absurd hk (by simp)
  | cons entry entries ih =>
    rw [printGuarded, pageFits_cons hoff]
    have hprint : (b.print entry).off = b.off + entry.length := rfl
    split_ifs with hge
    · rw [bounded_print, bounded_print, hprint]
      have hrest : PageFits (b.off + entry.length) entries := pageFits_of_ge (hprint ▸ hge)
      constructor
      · rintro ⟨⟨hb, -⟩, hentry⟩
        exact ⟨hb, hentry, hrest⟩
      · rintro ⟨hb, hentry, -⟩
        exact ⟨⟨hb, by omega⟩, hentry⟩
    · rw [ih (not_le.mp hge), bounded_print, hprint]
      constructor
      · rintro ⟨⟨hb, -⟩, hrest⟩
        exact ⟨hb, by omega, hrest⟩
      · rintro ⟨hb, -, hrest⟩
        exact ⟨⟨hb, by omega⟩, hrest⟩

theorem bounded_header {header : Text} : (print header {}).Bounded := by
  simp [Bounded, print]

end ListBuf

theorem pageFits_of_length_le {off : ℕ} (h : ∀ entry ∈ entries, entry.length ≤ 33) :
    PageFits off entries := by
  intro k hk hlt
  have hsum : printedLen (entries.take (k + 1)) =
      printedLen (entries.take k) + entries[k].length := by
    rw [List.take_succ_eq_append_getElem hk, printedLen, List.map_append, List.sum_append]
    simp [printedLen]
  have := h entries[k] (List.getElem_mem hk)
  unfold maxLineLen at *
  omega

/-- The buffer of a list holds a text, as far as it has room, and its length. -/
def ListBuf.Holds (b : ListBuf) (s : Text) : Prop :=
  b.text = snprintf maxLineLen s ∧ b.off = s.length

namespace ListBuf

variable {s : Text}

theorem holds_empty : Holds {} [] := ⟨rfl, rfl⟩

theorem Holds.print (h : b.Holds s) (piece : Text) : (b.print piece).Holds (s ++ piece) := by
  obtain ⟨htext, hoff⟩ := h
  refine ⟨?_, by simp [ListBuf.print, hoff]⟩
  simp only [ListBuf.print, htext, snprintf, List.take_append, List.take_take, Nat.min_self,
    List.length_take]
  have hrest : maxLineLen - 1 - min (maxLineLen - 1) s.length = maxLineLen - 1 - s.length := by
    omega
  rw [hrest]

theorem Holds.printAll (h : b.Holds s) (entries : List Text) :
    (b.printAll entries).Holds (s ++ entries.flatten) := by
  induction entries generalizing b s with
  | nil => simpa [ListBuf.printAll] using h
  | cons entry entries ih =>
    have hrest := ih (h.print entry)
    simpa [ListBuf.printAll] using hrest

end ListBuf

theorem length_decimal_le {n k : ℕ} (hk : 0 < k) (h : n < 10 ^ k) :
    (decimal (n : ℤ)).length ≤ k := by
  rw [decimal, if_neg (by omega), Int.natAbs_natCast]
  exact (Nat.length_toDigits_le_iff (by decide) hk).mpr h

theorem Paging.start_le (p : Paging) (total : ℕ) : p.start total ≤ total := by
  unfold Paging.start
  split_ifs <;> omega

theorem Paging.count_le (p : Paging) (total : ℕ) : p.count total ≤ total := by
  unfold Paging.count
  simp only
  split_ifs <;> omega

/-- The entries of the page a paginated reply prints. -/
def pageOf (entries : List Text) (cmd : Cmd) : List Text :=
  (entries.drop ((pagingOf cmd).start entries.length)).take
    ((pagingOf cmd).count entries.length)

/-- The header of a paginated reply. -/
def pageHeader (word : Text) (total : ℕ) (cmd : Cmd) : Text :=
  [' '].intercalate [word, decimal total, decimal ((pagingOf cmd).start total),
    decimal ((pagingOf cmd).count total)]

theorem length_pageHeader_le (word : Text) (cmd : Cmd) {total : ℕ} (h : total < 2 ^ 31) :
    (pageHeader word total cmd).length ≤ word.length + 33 := by
  have h₁ := length_decimal_le (n := total) (k := 10) (by decide) (by omega)
  have h₂ := length_decimal_le (n := (pagingOf cmd).start total) (k := 10) (by decide)
    (((pagingOf cmd).start_le total).trans_lt (by omega))
  have h₃ := length_decimal_le (n := (pagingOf cmd).count total) (k := 10) (by decide)
    (((pagingOf cmd).count_le total).trans_lt (by omega))
  simp only [pageHeader, List.intercalate, List.intersperse, List.flatten_cons, List.flatten_nil,
    List.length_append, List.length_nil, List.length_singleton]
  omega

theorem bounded_listReply (hword : word.length ≤ 100) (hlen : entries.length < 2 ^ 31) :
    (listReply word entries cmd).Bounded ↔
      if (pagingOf cmd).used then
        PageFits (pageHeader word entries.length cmd).length (pageOf entries cmd)
      else word.length + printedLen entries ≤ maxLineLen := by
  have hheader := length_pageHeader_le word cmd hlen
  have hoff (piece : Text) : (ListBuf.print piece {}).off = piece.length := Nat.zero_add _
  unfold listReply
  simp only
  split_ifs
  · refine (ListBuf.bounded_printGuarded ?_).trans ?_
    · rw [hoff]
      change (pageHeader word entries.length cmd).length < 512 - 32
      omega
    · rw [hoff]
      exact and_iff_right ListBuf.bounded_header
  · rw [ListBuf.bounded_printAll, hoff]
    exact and_iff_right ListBuf.bounded_header

/-- What is known of the registry whatever the configuration. -/
structure Admitted (reg : Registry) : Prop where
  roomName : ∀ r ∈ reg.roomList, (reg.rooms r).roomName.length ≤ 31
  roomCount : reg.roomList.length < 2 ^ 31
  memberCount : ∀ r, (reg.rooms r).members.length < 2 ^ 31

/-- A request for a list, with the room or the user of the client that sends it. -/
inductive ListRequest where
  | rooms (command : Cmd)
  | who (command : Cmd) (room : RoomPtr)
  | sessions (username : Text)

def ListRequest.reply (env : Env) (reg : Registry) (db : Database) : ListRequest → ListBuf
  | .rooms command => roomsReply command reg
  | .who command room => whoReply command room reg
  | .sessions username => sessionsReply env username db

/-- The entries of the reply to WHO. -/
def whoEntries (reg : Registry) (room : RoomPtr) : List Text :=
  (reg.rooms room).members.map (whoEntry reg room)

/-- The lengths under which a list stays inside its buffer. -/
def ListRequest.Fits (reg : Registry) : ListRequest → Prop
  | .rooms command => (pagingOf command).used ∨
      replyRooms.length + (reg.roomList.map fun r => (reg.rooms r).roomName.length + 1).sum ≤
        maxLineLen
  | .who command room =>
      if (pagingOf command).used then
        PageFits (pageHeader replyWho (whoEntries reg room).length command).length
          (pageOf (whoEntries reg room) command)
      else replyWho.length + printedLen (whoEntries reg room) ≤ maxLineLen
  | .sessions _ => True

variable {reg : Registry}

theorem mem_of_mem_pageOf {entry : Text} (h : entry ∈ pageOf entries cmd) : entry ∈ entries :=
  List.mem_of_mem_drop (List.mem_of_mem_take h)

theorem bounded_roomsReply (h : Admitted reg) :
    (roomsReply cmd reg).Bounded ↔ (ListRequest.rooms cmd).Fits reg := by
  have hlen : (reg.roomList.map fun r => ' ' :: (reg.rooms r).roomName).length < 2 ^ 31 := by
    simpa using h.roomCount
  have hsum : printedLen (reg.roomList.map fun r => ' ' :: (reg.rooms r).roomName) =
      (reg.roomList.map fun r => (reg.rooms r).roomName.length + 1).sum := by
    rw [printedLen, List.map_map]
    rfl
  rw [roomsReply, bounded_listReply (by decide) hlen, hsum, ListRequest.Fits]
  split_ifs with hused
  · refine iff_of_true (pageFits_of_length_le fun entry hentry => ?_) (.inl hused)
    obtain ⟨r, hr, rfl⟩ := List.mem_map.mp (mem_of_mem_pageOf hentry)
    have := h.roomName r hr
    simp only [List.length_cons]
    omega
  · simp [hused]

theorem bounded_whoReply (h : Admitted reg) {room : RoomPtr} :
    (whoReply cmd room reg).Bounded ↔ (ListRequest.who cmd room).Fits reg :=
  bounded_listReply (by decide) (by simpa using h.memberCount room)

theorem length_sessionListForUser (env : Env) (username : Text) (db : Database) :
    (sessionListForUser env username maxSessionsPerUser db).length ≤ 16 := by
  have htake : ∀ l : List Session,
      ((env.sql .listSessions).rows (l.take maxSessionsPerUser)).length ≤ 16 := by
    intro l
    cases env.sql .listSessions with
    | done => exact List.length_take_le _ _
    | prepareFailed => exact Nat.zero_le _
    | stepFailed n => exact (List.length_take_le' _ _).trans (List.length_take_le _ _)
  simpa [sessionListForUser] using htake _

theorem bounded_sessionsReply (env : Env) (username : Text) (db : Database) :
    (sessionsReply env username db).Bounded := by
  have hlen := length_sessionListForUser env username db
  have hcount := length_decimal_le (k := 2) (by decide)
    (show (sessionListForUser env username maxSessionsPerUser db).length < 10 ^ 2 by omega)
  unfold sessionsReply
  simp only
  refine (ListBuf.bounded_printGuarded ?_).mpr ⟨ListBuf.bounded_header, ?_⟩
  · change 0 + List.length _ < 512 - 32
    simp only [List.intercalate, List.intersperse, List.flatten_cons, List.flatten_nil,
      List.length_append, List.length_nil, List.length_singleton,
      show replySessions.length = 14 from rfl]
    omega
  · refine pageFits_of_length_le fun entry hentry => ?_
    obtain ⟨s, -, rfl⟩ := List.mem_map.mp hentry
    have := List.length_take_le 8 s.token
    simp only [List.length_cons, List.length_append, show ("...".toList).length = 3 from rfl]
    omega

/--
A list reply stays inside its buffer exactly if it is for SESSIONS, or a page
of ROOMS, or a plain list no longer than the buffer, or a page of WHO whose
last entry ends within the buffer.
-/
theorem listReply_bounded_iff (env : Env) (db : Database) (h : Admitted reg)
    (request : ListRequest) : (request.reply env reg db).Bounded ↔ request.Fits reg := by
  cases request with
  | rooms command => exact bounded_roomsReply h
  | who command room => exact bounded_whoReply h
  | sessions username => exact iff_of_true (bounded_sessionsReply env username db) trivial

/-- Three rooms; alice, its admin, bob and carol are in the first. -/
def village : Registry :=
  { registryInit ⟨4, 4, 4, 10⟩ with
    roomList := [0, 1, 2]
    clientList := [0, 1, 2]
    rooms := fun r =>
      if r = 0 then ⟨"lounge".toList, [0, 1, 2], 4, some 0, .empty zeroMessage 10⟩
      else ⟨if r = 1 then "den".toList else "hall".toList, [], 4, some 0, .empty zeroMessage 10⟩
    clients := fun c =>
      { zeroClient with
        clientName := if c = 0 then "alice".toList else if c = 1 then "bob".toList
          else "carol".toList
        currentRoom := some 0 } }

theorem admitted_village : Admitted village where
  roomName := by decide
  roomCount := by decide
  memberCount := by
    intro r
    unfold village
    simp only
    split_ifs <;> decide

/-- All its lists stay inside their buffers. -/
theorem village_bounded :
    (roomsReply (parseLine "ROOMS".toList) village).Bounded ∧
      (roomsReply (parseLine "ROOMS 1 2".toList) village).Bounded ∧
      (whoReply (parseLine "WHO".toList) 0 village).Bounded ∧
      (whoReply (parseLine "WHO 0 3".toList) 0 village).Bounded := by
  have hiff := listReply_bounded_iff (.calm 0 0 []) .empty admitted_village
  refine ⟨(hiff (.rooms _)).mpr (.inr (by decide)), (hiff (.rooms _)).mpr (.inl (by decide)),
    (hiff (.who _ 0)).mpr ?_, (hiff (.who _ 0)).mpr ?_⟩
  · rw [ListRequest.Fits, if_neg (by decide)]
    decide
  · rw [ListRequest.Fits, if_pos (by decide)]
    unfold PageFits
    decide

/-- One client creates sixteen rooms with the longest names. -/
def crowdedRun : List (Env × Event) :=
  [(.calm 0 0 "t0".toList, .accept 4 false),
   (.calm 0 0 "t0".toList, .line 4 "REGISTER alice pw".toList)] ++
  (List.range 16).map fun i =>
    (.calm i 0 [], .line 4 ("CREATE ".toList ++ List.replicate 30 'r' ++ [Char.ofNat (97 + i)]))

/-- The plain reply to ROOMS then ends eleven bytes past its buffer. -/
theorem crowdedRun_not_bounded :
    ¬ ((ListRequest.rooms (parseLine "ROOMS".toList)).reply (.calm 0 0 [])
      (run step (World.init ⟨16, 64, 16, 10⟩ .empty 0) crowdedRun).reg .empty).Bounded := by
  intro h
  exact absurd (h 523 (by decide +kernel)) (by decide)

end ChatServer
