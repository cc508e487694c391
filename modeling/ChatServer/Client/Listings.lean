import ChatServer.Client.ServerLine
import ChatServer.Replies.Pages

/-! # Lists in the client

The client reads the numbers of a page off the first three tokens, and goes
back when they are none. By then the first token has been cut off the rest, so
that a plain list is shown up to its first entry only.
-/

namespace ChatServer

open Library

variable {words names : List Text} {word s : Text} {cmd : Cmd} {reg : Registry} {l : Listing}

/-- The items of a list that the reply prints, among as many as the list has entries. -/
def onPage {α : Type} (word : Text) (words : List Text) (cmd : Cmd) (items : List α) : List α :=
  if (pagingOf cmd).used then
    ((items.drop ((pagingOf cmd).start words.length)).take
      ((pagingOf cmd).count words.length)).take
        (guardedCount (pageHeader word words.length cmd).length
          ((pageOf words cmd).map (' ' :: ·)))
  else items

/-- The pagination numbers of the reply. -/
def sentHeader (total : ℕ) (cmd : Cmd) : Option ListHeader :=
  if (pagingOf cmd).used then
    some ⟨total, (pagingOf cmd).start total, (pagingOf cmd).count total⟩
  else none

/-- The entry of a member. -/
def sentEntry (reg : Registry) (room : RoomPtr) (m : ClientPtr) : WhoEntry where
  isAdmin := (reg.rooms room).adminClient = some m
  name := (reg.clients m).clientName
  st := some (statusWord (reg.clients m).status)

namespace Listing

/-- The members whose entries the reply to WHO prints. -/
def shownMembers (reg : Registry) (cmd : Cmd) (room : RoomPtr) : List ClientPtr :=
  onPage replyWho ((Listing.who room).listed reg) cmd (reg.rooms room).members

/-- The names that the reply to ROOMS prints. -/
def shownRooms (reg : Registry) (cmd : Cmd) : List Text :=
  onPage replyRooms (Listing.rooms.listed reg) cmd (Listing.rooms.listed reg)

/-- The fields of the reply. -/
def fields (reg : Registry) (cmd : Cmd) (l : Listing) : ServerLine :=
  let header := sentHeader (l.listed reg).length cmd
  match l with
  | .rooms => .rooms header (shownRooms reg cmd)
  | .who room => .who header ((shownMembers reg cmd room).map (sentEntry reg room))

/-- The text that shows the fields, in a buffer without an end. -/
def shownText (reg : Registry) (cmd : Cmd) (l : Listing) : Text :=
  let header := sentHeader (l.listed reg).length cmd
  match l with
  | .rooms => roomsHead header ++ spaced (shownRooms reg cmd) ++
      roomsTail header (shownRooms reg cmd)
  | .who room => whoHead header ++
      ((shownMembers reg cmd room).map fun m => (sentEntry reg room m).shown).flatten ++
        whoTail header

/-- The client has the format, the numbers and the entries of the reply, and shows them whole. -/
structure Decoded (reg : Registry) (cmd : Cmd) (l : Listing) : Prop where
  fields : decodeLine (l.reply reg cmd) = l.fields reg cmd
  shown : ∀ client, (handleServerLine (l.reply reg cmd) client).2 = [.system (l.shownText reg cmd)]

/-- A name is not cut at a slash and does not look like the name of an administrator. -/
def PlainName (entry : WhoEntry) : Prop :=
  '/' ∉ entry.name ∧ (entry.isAdmin ∨ entry.name.head? ≠ some '*')

/-- The last name of ROOMS does not end in a return, and every name of WHO is plain. -/
def NamesPlain (reg : Registry) (cmd : Cmd) : Listing → Prop
  | .rooms => ∀ name ∈ (shownRooms reg cmd).getLast?, name.getLast? ≠ some '\r'
  | .who room => ∀ m ∈ shownMembers reg cmd room, PlainName (sentEntry reg room m)

/-- Only pages have more than one entry, the names are plain, and the line shown is short. -/
structure Readable (reg : Registry) (cmd : Cmd) (l : Listing) : Prop where
  single : (pagingOf cmd).used = false → (l.listed reg).length ≤ 1
  names : l.NamesPlain reg cmd
  short : (l.shownText reg cmd).length < maxLineLen

end Listing

/-- The last word without the newlines at its end, if anything is left of it. -/
def clipLast : List Text → List Text
  | [] => []
  | [w] => if stripLine w = [] then [] else [stripLine w]
  | w :: w' :: words => w :: clipLast (w' :: words)

/-- The numbers and entries that are read off the tokens. -/
def readTokens : List Text → Option ListHeader × List Text
  | t₁ :: t₂ :: t₃ :: ts =>
    if isNumeric t₁ ∧ isNumeric t₂ ∧ isNumeric t₃ then (some ⟨atoi t₁, atoi t₂, atoi t₃⟩, ts)
    else (none, [t₁])
  | ts => (none, ts.take 1)

theorem nextNumber_eq (rest : Text) :
    (tokens (· = ' ') rest = [] ∧ nextNumber rest = none ∧ tokens (· = ' ') (rewound rest) = []) ∨
      ∃ t r, tokens (· = ' ') rest = t :: tokens (· = ' ') r ∧
        nextNumber rest = (if isNumeric t then some (atoi t, r) else none) ∧
          tokens (· = ' ') (rewound rest) = [t] := by
  unfold nextNumber rewound strtokSpace
  rcases tokens_strtok (· = ' ') rest with ⟨hs, hnil⟩ | ⟨t, r, hs, hne, ht, -, hcons⟩
  · rw [hs]
    exact .inl ⟨hnil, rfl, hnil⟩
  · rw [hs]
    refine .inr ⟨t, r, hcons, rfl, ?_⟩
    have hseps : ∀ c ∈ rest.takeWhile (· = ' '), decide (c = ' ') = true := fun c hc => by
      simpa using List.mem_takeWhile_imp hc
    rw [tokens_seps hseps, tokens_eq_singleton hne ht]

/-- The guess at the format depends on the tokens only. -/
theorem listTokens_eq (rest : Text) : listTokens rest = readTokens (tokens (· = ' ') rest) := by
  unfold listTokens listHeader
  rcases nextNumber_eq rest with ⟨hnil, hnone, hrewound⟩ | ⟨t₁, r₁, hcons₁, hnext₁, hrewound⟩
  · rw [hnone, hnil]
    simp [nextTokens_eq, hrewound, readTokens]
  rw [hnext₁, hcons₁]
  rcases nextNumber_eq r₁ with ⟨hnil, hnone, -⟩ | ⟨t₂, r₂, hcons₂, hnext₂, -⟩
  · rw [hnil]
    split_ifs <;> simp [hnone, nextTokens_eq, hrewound, readTokens]
  rw [hcons₂]
  rcases nextNumber_eq r₂ with ⟨hnil, hnone, -⟩ | ⟨t₃, r₃, hcons₃, hnext₃, -⟩
  · rw [hnil]
    split_ifs with h₁
    · by_cases h₂ : isNumeric t₂ <;> simp [hnext₂, h₂, hnone, nextTokens_eq, hrewound, readTokens]
    · simp [nextTokens_eq, hrewound, readTokens]
  rw [hcons₃, readTokens]
  by_cases h₁ : isNumeric t₁ <;> by_cases h₂ : isNumeric t₂ <;> by_cases h₃ : isNumeric t₃ <;>
    simp [h₁, h₂, h₃, hnext₂, hnext₃, nextTokens_eq, hrewound]

theorem tokens_stripLine (hword : IsEntry word) (hwords : ∀ w ∈ words, IsEntry w) :
    tokens (· = ' ') (stripLine (word ++ spaced words)) = clipLast (word :: words) := by
  induction words generalizing word with
  | nil =>
    rw [spaced, List.map_nil, List.flatten_nil, List.append_nil, clipLast]
    split_ifs with hnil
    · rw [hnil, tokens_nil]
    · refine tokens_eq_singleton hnil fun c hc => hword.not_space c ?_
      exact (List.rdropWhile_prefix (p := _) word).subset hc
  | cons w words ih =>
    have hsplit : word ++ spaced (w :: words) = word ++ ' ' :: (w ++ spaced words) := by
      simp [spaced]
    rw [hsplit, stripLine_append _ _ (by decide), tokens_token hword.ne hword.not_space rfl,
      ih (hwords w List.mem_cons_self) fun v hv => hwords v (List.mem_cons_of_mem w hv)]
    rfl

theorem clipLast_eq_iff (hwords : ∀ w ∈ words, IsEntry w) :
    clipLast words = words ↔ ∀ w ∈ words.getLast?, w.getLast? ≠ some '\r' := by
  induction words with
  | nil => simp [clipLast]
  | cons w words ih =>
    have hw := hwords w List.mem_cons_self
    cases words with
    | nil =>
      have hstrip := stripLine_eq_self_iff hw.noNewline
      rw [clipLast]
      split_ifs with hnil
      · rw [hnil] at hstrip
        simpa [hw.ne.symm] using hstrip
      · simpa using hstrip
    | cons w' words =>
      rw [clipLast, List.cons_inj_right, ih fun v hv => hwords v (List.mem_cons_of_mem w hv),
        List.getLast?_cons_cons]

theorem clipLast_append (words' : List Text) (w : Text) (words : List Text) :
    clipLast (words' ++ w :: words) = words' ++ clipLast (w :: words) := by
  induction words' with
  | nil => rfl
  | cons v words' ih =>
    cases words' with
    | nil => rfl
    | cons v' words' =>
      rw [List.cons_append, List.cons_append, clipLast, ← List.cons_append, ih]
      rfl

theorem tokens_line (hword : IsEntry word) (hstrip : stripLine word = word)
    (hwords : ∀ w ∈ words, IsEntry w) :
    ∃ line rest, decodeLine (word ++ spaced words ++ ['\n']) = decodeFields line word rest ∧
      tokens (· = ' ') rest = clipLast words := by
  rw [decodeLine, stripLine_newline]
  cases words with
  | nil =>
    rw [spaced, List.map_nil, List.flatten_nil, List.append_nil, hstrip,
      strtokSpace_last hword.toIsWord]
    exact ⟨_, _, rfl, tokens_nil⟩
  | cons w words =>
    have hsplit : word ++ spaced (w :: words) = word ++ ' ' :: (w ++ spaced words) := by
      simp [spaced]
    rw [hsplit, stripLine_append _ _ (by decide), strtokSpace_word hword.toIsWord]
    exact ⟨_, _, rfl, tokens_stripLine (hwords w List.mem_cons_self) fun v hv =>
      hwords v (List.mem_cons_of_mem w hv)⟩

theorem decodeLine_rooms (hwords : ∀ w ∈ words, IsEntry w) :
    decodeLine (replyRooms ++ spaced words ++ ['\n']) =
      .rooms (readTokens (clipLast words)).1 (readTokens (clipLast words)).2 := by
  obtain ⟨line, rest, hdecode, htokens⟩ :=
    tokens_line (Listing.isEntry_replyWord .rooms).1 (by decide) hwords
  rw [← htokens, ← listTokens_eq]
  exact hdecode

theorem decodeLine_who (hwords : ∀ w ∈ words, IsEntry w) :
    decodeLine (replyWho ++ spaced words ++ ['\n']) =
      .who (readTokens (clipLast words)).1 ((readTokens (clipLast words)).2.map whoFields) := by
  obtain ⟨line, rest, hdecode, htokens⟩ :=
    tokens_line (Listing.isEntry_replyWord (.who 0)).1 (by decide) hwords
  rw [← htokens, ← listTokens_eq]
  exact hdecode

/-- The numbers in front of the entries. -/
def sentNumbers (total : ℕ) (cmd : Cmd) : List Text :=
  if (pagingOf cmd).used then pageNumbers total cmd else []

theorem onPage_map {α β : Type} (f : α → β) (items : List α) :
    onPage word words cmd (items.map f) = (onPage word words cmd items).map f := by
  unfold onPage
  split_ifs
  · simp only [List.map_take, List.map_drop]
  · rfl

theorem onPage_plain {α : Type} {items : List α} (hused : (pagingOf cmd).used = false) :
    onPage word words cmd items = items := by
  rw [onPage, hused]
  rfl

theorem mem_of_mem_onPage {α : Type} {items : List α} {x : α}
    (h : x ∈ onPage word words cmd items) : x ∈ items := by
  unfold onPage at h
  split_ifs at h
  · exact List.mem_of_mem_drop (List.mem_of_mem_take (List.mem_of_mem_take h))
  · exact h

theorem text_listReply (hfit : (listReply word (words.map (' ' :: ·)) cmd).off < maxLineLen) :
    (listReply word (words.map (' ' :: ·)) cmd).text =
      word ++ spaced (sentNumbers words.length cmd ++ onPage word words cmd words) ++ ['\n'] := by
  unfold sentNumbers onPage
  by_cases hused : (pagingOf cmd).used = true
  · have hholds : (listReply word (words.map (' ' :: ·)) cmd).Holds _ := holds_page hused
    rw [hholds.2] at hfit
    rw [hholds.whole hfit, printedPage, pageOf_map, List.length_map, if_pos hused, if_pos hused,
      pageHeader_eq, spaced_append, ← List.map_take]
    simp only [List.append_assoc]
    rfl
  · rw [Bool.not_eq_true] at hused
    have hholds : (listReply word (words.map (' ' :: ·)) cmd).Holds _ := holds_plain hused
    rw [hholds.2] at hfit
    rw [hholds.whole hfit]
    simp [hused, spaced]

theorem Listing.reply_text (hfit : (l.buf reg cmd).off < maxLineLen) :
    l.reply reg cmd = l.replyWord ++ spaced (sentNumbers (l.listed reg).length cmd ++
      onPage l.replyWord (l.listed reg) cmd (l.listed reg)) ++ ['\n'] := by
  rw [l.buf_eq] at hfit
  rw [l.reply_eq, text_listReply hfit]

theorem clipLast_numbers (total : ℕ) (cmd : Cmd) (words : List Text) :
    clipLast (pageNumbers total cmd ++ words) = pageNumbers total cmd ++ clipLast words := by
  cases words with
  | nil =>
    rw [clipLast, List.append_nil, clipLast_eq_iff (isEntry_numbers _ _)]
    rintro w hw hlast
    obtain rfl : decimal ((pagingOf cmd).count total) = w := by simpa [pageNumbers] using hw
    exact absurd (isDigit_of_mem_decimal (List.mem_of_getLast? hlast)) (by decide)
  | cons w words => exact clipLast_append _ w words

theorem readTokens_numbers {total : ℕ} (htotal : total < 2 ^ 31) (ts : List Text) :
    readTokens (pageNumbers total cmd ++ ts) =
      (some ⟨total, (pagingOf cmd).start total, (pagingOf cmd).count total⟩, ts) := by
  have hstart := (pagingOf cmd).start_le total
  have hcount := (pagingOf cmd).count_le total
  simp only [pageNumbers, List.cons_append, List.nil_append, readTokens, isNumeric_decimal,
    and_self, if_true, atoi_decimal htotal, atoi_decimal (hstart.trans_lt htotal),
    atoi_decimal (hcount.trans_lt htotal)]

theorem length_readTokens_le {ts : List Text} (h : (readTokens ts).1 = none) :
    (readTokens ts).2.length ≤ 1 := by
  unfold readTokens at h ⊢
  split at h
  · split_ifs at h with hnumeric
    simp [hnumeric]
  · simp

/-- The numbers of a page are read back, and no numbers are read where none were sent. -/
theorem readTokens_eq_iff {total : ℕ} (htotal : total < 2 ^ 31) (hwords : ∀ w ∈ words, IsEntry w) :
    readTokens (clipLast (sentNumbers total cmd ++ words)) = (sentHeader total cmd, words) ↔
      ((pagingOf cmd).used = false → words.length ≤ 1) ∧
        ∀ w ∈ words.getLast?, w.getLast? ≠ some '\r' := by
  rw [← clipLast_eq_iff hwords]
  unfold sentNumbers sentHeader
  by_cases hused : (pagingOf cmd).used = true
  · simp [hused, clipLast_numbers, readTokens_numbers htotal]
  · rw [Bool.not_eq_true] at hused
    simp only [hused, Bool.false_eq_true, if_false, List.nil_append, forall_const]
    constructor
    · intro heq
      have hle := length_readTokens_le (congrArg Prod.fst heq)
      rw [heq] at hle
      refine ⟨hle, ?_⟩
      match words, hle, heq with
      | [], _, _ => rfl
      | [w], _, heq =>
        rw [clipLast] at heq ⊢
        split_ifs at heq ⊢
        · simp [readTokens] at heq
        · simpa [readTokens] using heq
    · rintro ⟨hle, hclip⟩
      rw [hclip]
      match words, hle with
      | [], _ => rfl
      | [w], _ => rfl

theorem takeWhile_slash (name st : Text) :
    ((name ++ '/' :: st).takeWhile (· ≠ '/') = name ∧
      ((name ++ '/' :: st).dropWhile (· ≠ '/')).tail = st) ↔ '/' ∉ name := by
  constructor
  · rintro ⟨hname, -⟩ hmem
    rw [← hname] at hmem
    simpa using List.mem_takeWhile_imp hmem
  · intro hslash
    have hall : ∀ c ∈ name, decide (c ≠ '/') = true := fun c hc =>
      decide_eq_true fun heq => hslash (heq ▸ hc)
    rw [List.takeWhile_append_of_pos hall, List.dropWhile_append_of_pos hall]
    simp

/-- The fields of an entry are read back exactly if its name is plain. -/
theorem whoFields_eq_iff {room : RoomPtr} {m : ClientPtr} (h : (reg.clients m).clientName ≠ []) :
    whoFields (whoWord reg room m) = sentEntry reg room m ↔
      Listing.PlainName (sentEntry reg room m) := by
  have hslash := takeWhile_slash (reg.clients m).clientName (statusWord (reg.clients m).status)
  obtain ⟨c, name, hname⟩ := List.exists_cons_of_ne_nil h
  unfold whoFields whoWord sentEntry Listing.PlainName
  by_cases hadmin : (reg.rooms room).adminClient = some m
  · simp [hadmin, ← hslash]
  · by_cases hstar : c = '*'
    · simp [hadmin, hname, hstar]
    · rw [hname] at hslash
      simpa [hadmin, hstar, hname] using hslash

namespace Listing

theorem single_of_header {ts : List Text} {total : ℕ}
    (h : (readTokens ts).1 = sentHeader total cmd) (hused : (pagingOf cmd).used = false) :
    (readTokens ts).2.length ≤ 1 := by
  refine length_readTokens_le ?_
  rw [h, sentHeader, hused]
  rfl

theorem isEntry_sent (hwords : ∀ w ∈ words, IsEntry w) (total : ℕ) :
    ∀ w ∈ sentNumbers total cmd ++ onPage word words cmd words, IsEntry w := by
  intro w hw
  rcases List.mem_append.mp hw with hw | hw
  · unfold sentNumbers at hw
    split_ifs at hw
    · exact isEntry_numbers _ _ w hw
    · exact absurd hw List.not_mem_nil
  · exact hwords w (mem_of_mem_onPage hw)

theorem decode_rooms_iff (h : NamesAccepted reg)
    (hfit : (Listing.rooms.buf reg cmd).off < maxLineLen) :
    decodeLine (Listing.rooms.reply reg cmd) = Listing.rooms.fields reg cmd ↔
      ((pagingOf cmd).used = false → (shownRooms reg cmd).length ≤ 1) ∧
        ∀ name ∈ (shownRooms reg cmd).getLast?, name.getLast? ≠ some '\r' := by
  have hwords : ∀ w ∈ shownRooms reg cmd, IsEntry w := fun w hw =>
    h.isEntry .rooms w (mem_of_mem_onPage hw)
  rw [← readTokens_eq_iff (h.length_listed .rooms) hwords, reply_text hfit, replyWord,
    decodeLine_rooms]
  · simp [fields, Prod.ext_iff, shownRooms]
  · exact isEntry_sent (h.isEntry .rooms) _

theorem getLast_whoWord (room : RoomPtr) (m : ClientPtr) :
    (whoWord reg room m).getLast? ≠ some '\r' := by
  have hstatus : ∀ status, statusWord status ≠ [] ∧ (statusWord status).getLast? ≠ some '\r' := by
    rintro (_ | _ | _) <;> decide
  obtain ⟨hne, hlast⟩ := hstatus (reg.clients m).status
  rw [whoWord, List.append_cons, List.getLast?_append_of_ne_nil _ hne]
  exact hlast

theorem decode_who_iff (h : NamesAccepted reg) (room : RoomPtr)
    (hfit : ((Listing.who room).buf reg cmd).off < maxLineLen) :
    decodeLine ((Listing.who room).reply reg cmd) = (Listing.who room).fields reg cmd ↔
      ((pagingOf cmd).used = false → (shownMembers reg cmd room).length ≤ 1) ∧
        ∀ m ∈ shownMembers reg cmd room, PlainName (sentEntry reg room m) := by
  have htotal := h.length_listed (.who room)
  have hwords : ∀ w ∈ onPage replyWho ((Listing.who room).listed reg) cmd
      ((Listing.who room).listed reg), IsEntry w := fun w hw =>
    h.isEntry (.who room) w (mem_of_mem_onPage hw)
  have hmap : onPage replyWho ((Listing.who room).listed reg) cmd ((Listing.who room).listed reg) =
      (shownMembers reg cmd room).map (whoWord reg room) := onPage_map _ _
  have hread : readTokens (clipLast (sentNumbers _ cmd ++ _)) = _ ↔ _ :=
    readTokens_eq_iff htotal hwords
  rw [hmap, List.length_map] at hread
  rw [reply_text hfit, replyWord, decodeLine_who (isEntry_sent (h.isEntry (.who room)) _), hmap]
  generalize clipLast (sentNumbers ((Listing.who room).listed reg).length cmd ++
    (shownMembers reg cmd room).map (whoWord reg room)) = ts at hread ⊢
  have hlast : ∀ w ∈ ((shownMembers reg cmd room).map (whoWord reg room)).getLast?,
      w.getLast? ≠ some '\r' := by
    intro w hw
    obtain ⟨m, -, rfl⟩ := List.mem_map.mp (List.mem_of_getLast? hw)
    exact getLast_whoWord room m
  have hplain (m : ClientPtr) (hm : m ∈ shownMembers reg cmd room) :
      whoFields (whoWord reg room m) = sentEntry reg room m ↔ PlainName (sentEntry reg room m) :=
    whoFields_eq_iff (h.clients room m (mem_of_mem_onPage hm)).ne
  have hentries : ((shownMembers reg cmd room).map (whoWord reg room)).map whoFields =
      (shownMembers reg cmd room).map (sentEntry reg room) ↔
        ∀ m ∈ shownMembers reg cmd room, PlainName (sentEntry reg room m) := by
    rw [List.map_map, List.map_inj_left]
    exact forall₂_congr hplain
  rw [← hentries]
  simp only [fields, ServerLine.who.injEq]
  constructor
  · rintro ⟨hheader, hmap'⟩
    have hlength := congrArg List.length hmap'
    rw [List.length_map, List.length_map] at hlength
    have hsingle : (pagingOf cmd).used = false → (shownMembers reg cmd room).length ≤ 1 :=
      fun hused => hlength ▸ single_of_header hheader hused
    rw [hread.mpr ⟨hsingle, hlast⟩] at hmap'
    exact ⟨hsingle, hmap'⟩
  · rintro ⟨hsingle, hmap'⟩
    rw [hread.mpr ⟨hsingle, hlast⟩]
    exact ⟨rfl, hmap'⟩

theorem fields_iff (h : NamesAccepted reg) (l : Listing)
    (hfit : (l.buf reg cmd).off < maxLineLen) :
    decodeLine (l.reply reg cmd) = l.fields reg cmd ↔
      ((pagingOf cmd).used = false → (l.listed reg).length ≤ 1) ∧ l.NamesPlain reg cmd := by
  cases l with
  | rooms =>
    refine (decode_rooms_iff h hfit).trans (and_congr_left' (forall_congr' fun hused => ?_))
    rw [shownRooms, onPage_plain hused]
  | who room =>
    refine (decode_who_iff h room hfit).trans (and_congr_left' (forall_congr' fun hused => ?_))
    rw [shownMembers, onPage_plain hused, listed, List.length_map]

/-- What is shown of a reply is its text, as far as the buffer has room. -/
theorem shown_fields (l : Listing) (currentRoom : Text) :
    (l.fields reg cmd).shown currentRoom =
      [.system (snprintf maxLineLen (l.shownText reg cmd))] := by
  cases l with
  | rooms =>
    have hhead := ListBuf.holds_empty.print
      (roomsHead (sentHeader (Listing.rooms.listed reg).length cmd))
    have hbuf := ((hhead.printAll ((shownRooms reg cmd).map (' ' :: ·))).print
      (roomsTail (sentHeader (Listing.rooms.listed reg).length cmd) (shownRooms reg cmd))).1
    exact congrArg (fun t => [Display.system t]) hbuf
  | who room =>
    have hmap : ((shownMembers reg cmd room).map fun m => (sentEntry reg room m).shown) =
        ((shownMembers reg cmd room).map (sentEntry reg room)).map WhoEntry.shown := by
      rw [List.map_map]
      rfl
    have hhead := ListBuf.holds_empty.print
      (whoHead (sentHeader ((Listing.who room).listed reg).length cmd))
    have hbuf := ((hhead.printAll (((shownMembers reg cmd room).map (sentEntry reg room)).map
      WhoEntry.shown)).print (whoTail (sentHeader ((Listing.who room).listed reg).length cmd))).1
    rw [shownText, hmap]
    exact congrArg (fun t => [Display.system t]) hbuf

/--
The client decodes and shows a reply to ROOMS or WHO exactly if only a page has
more than one entry, the names are plain and the line shown fits its buffer.
-/
theorem decoded_iff (h : NamesAccepted reg) (l : Listing)
    (hfit : (l.buf reg cmd).off < maxLineLen) : l.Decoded reg cmd ↔ l.Readable reg cmd := by
  have hiff := fields_iff h l hfit
  have hshort := snprintf_eq_self_iff (s := l.shownText reg cmd) (show 0 < maxLineLen by decide)
  constructor
  · rintro ⟨hfields, hshown⟩
    obtain ⟨hsingle, hnames⟩ := hiff.mp hfields
    have hnew := hshown {}
    rw [handleServerLine, hfields, shown_fields] at hnew
    exact ⟨hsingle, hnames, hshort.mp (by simpa using hnew)⟩
  · rintro ⟨hsingle, hnames, hlen⟩
    have hfields := hiff.mpr ⟨hsingle, hnames⟩
    refine ⟨hfields, fun client => ?_⟩
    rw [handleServerLine, hfields, shown_fields, hshort.mpr hlen]

/-- A page with three rooms and one with three members are decoded and shown. -/
theorem village_decoded :
    Listing.rooms.Decoded village (parseLine "ROOMS 0 5".toList) ∧
      (Listing.who 0).Decoded village (parseLine "WHO 0 5".toList) := by
  refine ⟨(decoded_iff namesAccepted_village .rooms (by decide)).mpr ⟨by decide, ?_, by decide⟩,
    (decoded_iff namesAccepted_village (.who 0) (by decide)).mpr ⟨by decide, ?_, by decide⟩⟩
  · unfold NamesPlain
    decide
  · unfold NamesPlain PlainName
    decide

/-- A registry with two rooms. -/
def twoRooms : Registry :=
  { registryInit ⟨2, 1, 1, 1⟩ with
    roomList := [0, 1]
    rooms := fun r =>
      { zeroRoom with roomName := if r = 0 then "lounge".toList else "hall".toList } }

/-- Of two rooms in a plain reply the client gets the first. -/
theorem twoRooms_not_decoded :
    NamesAccepted twoRooms ∧
      (Listing.rooms.buf twoRooms (parseLine "ROOMS".toList)).off < maxLineLen ∧
      decodeLine (Listing.rooms.reply twoRooms (parseLine "ROOMS".toList)) =
        .rooms none ["lounge".toList] ∧
      ¬ Listing.rooms.Decoded twoRooms (parseLine "ROOMS".toList) := by
  have hname (r : RoomPtr) : AcceptedName maxRoomNameLen (twoRooms.rooms r).roomName := by
    unfold twoRooms
    simp only
    split_ifs <;> exact ⟨⟨by decide, by decide⟩, by decide, by decide, by decide⟩
  refine ⟨⟨fun r _ => hname r, fun _ _ hm => absurd hm List.not_mem_nil, by decide,
    fun _ => (by decide : (0 : ℕ) < 2 ^ 31)⟩, by decide, by decide, fun h => ?_⟩
  exact absurd h.fields (by decide)

end Listing

end ChatServer
