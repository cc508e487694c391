import ChatServer.Protocol.Fields
import ChatServer.Replies.Lists

/-! # Pages of the list replies

The header of a page of ROOMS or WHO is computed before its entries are
printed, and the printing stops when fewer than 32 bytes of the line are left.
A page lists what its header says exactly if it is short enough, and then the
pages one after another list everything.
-/

namespace ChatServer

open Library

variable {words entries : List Text} {b : ListBuf} {cmd : Cmd} {word s piece : Text} {off : ℕ}

/-! ## What is printed -/

/-- The number of entries printed until fewer than 32 bytes are left. -/
def guardedCount : ℕ → List Text → ℕ
  | _, [] => 0
  | off, entry :: entries =>
    if maxLineLen - 32 ≤ off + entry.length then 1
    else guardedCount (off + entry.length) entries + 1

namespace ListBuf

theorem printGuarded_eq (entries : List Text) (b : ListBuf) :
    ListBuf.printGuarded entries b = b.printAll (entries.take (guardedCount b.off entries)) := by
  induction entries generalizing b with
  | nil => rfl
  | cons entry entries ih =>
    have hoff : (b.print entry).off = b.off + entry.length := rfl
    rw [ListBuf.printGuarded, guardedCount, hoff]
    split_ifs
    · rfl
    · rw [ih, List.take_succ_cons]
      rfl

theorem Holds.whole (h : b.Holds s) (hfit : s.length < maxLineLen) : b.text = s := by
  rw [h.1, snprintf, List.take_of_length_le (by omega)]

end ListBuf

theorem guardedCount_le (off : ℕ) (entries : List Text) :
    guardedCount off entries ≤ entries.length := by
  induction entries generalizing off with
  | nil => exact le_rfl
  | cons entry entries ih =>
    rw [guardedCount, List.length_cons]
    have := ih (off + entry.length)
    split_ifs <;> omega

/-- All entries are printed exactly if those before the last leave 32 bytes. -/
theorem guardedCount_eq_length_iff (hoff : off < maxLineLen - 32) :
    guardedCount off entries = entries.length ↔
      off + printedLen entries.dropLast < maxLineLen - 32 := by
  induction entries generalizing off with
  | nil => simpa [guardedCount] using hoff
  | cons entry entries ih =>
    rw [guardedCount]
    cases entries with
    | nil => simp [guardedCount, hoff]
    | cons entry' entries =>
      rw [List.dropLast_cons_cons, printedLen_cons, ← Nat.add_assoc]
      split_ifs with hge
      · simp only [List.length_cons]
        omega
      · rw [← ih (not_le.mp hge), List.length_cons, Nat.add_right_cancel_iff]

/-- The entries that a paginated reply prints. -/
def printedPage (word : Text) (entries : List Text) (cmd : Cmd) : List Text :=
  (pageOf entries cmd).take
    (guardedCount (pageHeader word entries.length cmd).length (pageOf entries cmd))

theorem holds_page (h : (pagingOf cmd).used = true) :
    (listReply word entries cmd).Holds
      (pageHeader word entries.length cmd ++ (printedPage word entries cmd).flatten ++ ['\n']) := by
  have hheader := ListBuf.holds_empty.print (pageHeader word entries.length cmd)
  rw [List.nil_append] at hheader
  unfold listReply
  simp only [h, if_true]
  rw [ListBuf.printGuarded_eq]
  refine ListBuf.Holds.print ?_ _
  have hall := hheader.printAll (printedPage word entries cmd)
  rw [printedPage, ← hheader.2] at hall ⊢
  exact hall

theorem holds_plain (h : (pagingOf cmd).used = false) :
    (listReply word entries cmd).Holds (word ++ entries.flatten ++ ['\n']) := by
  unfold listReply
  simp only [h]
  have hheader := ListBuf.holds_empty.print word
  rw [List.nil_append] at hheader
  exact (hheader.printAll entries).print ['\n']

/-! ## Words of a line -/

/-- Words and newlines are separated. -/
def isBreak (c : Char) : Bool := c = ' ' || c = '\n'

/-- The words of a reply. -/
def replyWords (text : Text) : List Text := tokens isBreak text

/-- Words, each behind a space. -/
def spaced (words : List Text) : Text := (words.map (' ' :: ·)).flatten

/-- A word that is not cut at a newline either. -/
structure IsEntry (s : Text) : Prop extends IsWord s where
  noNewline : '\n' ∉ s

theorem IsEntry.not_break (h : IsEntry s) : ∀ c ∈ s, isBreak c = false := by
  intro c hc
  have hspace : c ≠ ' ' := fun heq => h.noSpace (heq ▸ hc)
  have hnewline : c ≠ '\n' := fun heq => h.noNewline (heq ▸ hc)
  simp [isBreak, hspace, hnewline]

theorem isEntry_decimal (n : ℕ) : IsEntry (decimal (n : ℤ)) where
  toIsWord := isWord_decimal n
  noNewline h := absurd (isDigit_of_mem_decimal h) (by decide)

theorem replyWords_spaced (hword : IsEntry word) (hwords : ∀ w ∈ words, IsEntry w) :
    replyWords (word ++ spaced words) = word :: words := by
  induction words generalizing word with
  | nil => simpa [spaced, replyWords] using tokens_eq_singleton hword.ne hword.not_break
  | cons w words ih =>
    have hrest := ih (hwords w List.mem_cons_self) fun v hv => hwords v (List.mem_cons_of_mem w hv)
    have hsplit : word ++ spaced (w :: words) = word ++ ' ' :: (w ++ spaced words) := by
      simp [spaced]
    rw [hsplit, replyWords, tokens_token hword.ne hword.not_break rfl]
    exact congrArg _ hrest

theorem spaced_append (words words' : List Text) :
    spaced (words ++ words') = spaced words ++ spaced words' := by
  simp [spaced]

theorem not_break_getLast (hword : IsEntry word) (hwords : ∀ w ∈ words, IsEntry w) :
    ∀ c ∈ (word ++ spaced words).getLast?, isBreak c = false := by
  intro c hc
  rcases List.eq_nil_or_concat words with rfl | ⟨ws, w, rfl⟩
  · rw [spaced, List.map_nil, List.flatten_nil, List.append_nil] at hc
    exact hword.not_break c (List.mem_of_getLast? hc)
  · have hw : IsEntry w := hwords w (by simp)
    have hlast : (word ++ spaced (ws.concat w)).getLast? = w.getLast? := by
      have hsplit : word ++ spaced (ws.concat w) = word ++ spaced ws ++ [' '] ++ w := by
        simp [spaced]
      rw [hsplit, List.getLast?_append_of_ne_nil _ hw.ne]
    rw [hlast] at hc
    exact hw.not_break c (List.mem_of_getLast? hc)

theorem eq_of_prefix_of_length {a l : Text} (hpre : a <+: l)
    (hlast : ∀ c ∈ l.getLast?, isBreak c = false)
    (hlen : (replyWords l).flatten.length ≤ (replyWords a).flatten.length) : a = l := by
  obtain ⟨r, rfl⟩ := hpre
  simp only [replyWords, flatten_tokens, List.filter_append, List.length_append] at hlen
  have hr : (r.filter fun c => !isBreak c) = [] := List.eq_nil_of_length_eq_zero (by omega)
  rcases List.eq_nil_or_concat r with rfl | ⟨r, c, rfl⟩
  · simp
  · have hc := hlast c (by simp)
    rw [List.filter_eq_nil_iff] at hr
    exact absurd (hr c (by simp)) (by simp [hc])

/-! ## One page -/

/-- The numbers in the header of a page. -/
def pageNumbers (total : ℕ) (cmd : Cmd) : List Text :=
  [decimal total, decimal ((pagingOf cmd).start total), decimal ((pagingOf cmd).count total)]

/-- The line of a page that is printed whole, without the newline. -/
def pageLine (word : Text) (words : List Text) (cmd : Cmd) : Text :=
  word ++ spaced (pageNumbers words.length cmd ++ pageOf words cmd)

/--
The bytes before the last entry of a page leave 32 bytes of its line, and the
last entry ends within the line.
-/
structure PageShort (word : Text) (words : List Text) (cmd : Cmd) : Prop where
  guard : (pageHeader word words.length cmd).length +
    printedLen ((pageOf words cmd).map (' ' :: ·)).dropLast < maxLineLen - 32
  fits : (pageLine word words cmd).length < maxLineLen

theorem pageHeader_eq (word : Text) (total : ℕ) (cmd : Cmd) :
    pageHeader word total cmd = word ++ spaced (pageNumbers total cmd) := by
  simp [pageHeader, pageNumbers, spaced, List.intercalate]

theorem pageOf_map (f : Text → Text) (words : List Text) (cmd : Cmd) :
    pageOf (words.map f) cmd = (pageOf words cmd).map f := by
  simp [pageOf, List.map_take, List.map_drop]

theorem length_pageOf (words : List Text) (cmd : Cmd) :
    (pageOf words cmd).length = (pagingOf cmd).count words.length := by
  have hcount : (pagingOf cmd).count words.length ≤
      words.length - (pagingOf cmd).start words.length := by
    unfold Paging.count
    simp only
    split_ifs <;> omega
  simpa [pageOf] using hcount

theorem replyWords_take (s : Text) (n : ℕ) :
    replyWords ((s ++ ['\n']).take n) = replyWords (s.take n) := by
  rcases le_or_gt n s.length with h | h
  · rw [List.take_append_of_le_length h]
  · rw [List.take_of_length_le (by simpa using Nat.succ_le_of_lt h), List.take_of_length_le h.le,
      replyWords, replyWords, tokens_append_cons rfl, tokens_nil, List.append_nil]

theorem printedLen_take_lt (h : ∀ entry ∈ entries, entry ≠ []) {k : ℕ} (hk : k < entries.length) :
    printedLen (entries.take k) < printedLen entries := by
  have hsplit : printedLen entries = printedLen (entries.take k) + printedLen (entries.drop k) := by
    conv_lhs => rw [← List.take_append_drop k entries]
    rw [printedLen, List.map_append, List.sum_append, printedLen, printedLen]
  have hpos : 0 < entries[k].length := List.length_pos_of_ne_nil (h _ (List.getElem_mem hk))
  rw [hsplit, List.drop_eq_getElem_cons hk, printedLen_cons]
  omega

theorem isEntry_numbers (total : ℕ) (cmd : Cmd) : ∀ w ∈ pageNumbers total cmd, IsEntry w := by
  intro w hw
  simp only [pageNumbers, List.mem_cons, List.not_mem_nil, or_false] at hw
  rcases hw with rfl | rfl | rfl <;> exact isEntry_decimal _

theorem isEntry_page (hwords : ∀ w ∈ words, IsEntry w) :
    ∀ w ∈ pageNumbers words.length cmd ++ pageOf words cmd, IsEntry w := by
  intro w hw
  rcases List.mem_append.mp hw with hw | hw
  · exact isEntry_numbers _ _ w hw
  · exact hwords w (mem_of_mem_pageOf hw)

theorem replyWords_pageLine (hentry : IsEntry word) (hwords : ∀ w ∈ words, IsEntry w) :
    replyWords (pageLine word words cmd) =
      word :: (pageNumbers words.length cmd ++ pageOf words cmd) :=
  replyWords_spaced hentry (isEntry_page hwords)

theorem pageLine_eq (word : Text) (words : List Text) (cmd : Cmd) : pageLine word words cmd =
    pageHeader word words.length cmd ++ ((pageOf words cmd).map (' ' :: ·)).flatten := by
  rw [pageLine, spaced_append, pageHeader_eq, List.append_assoc]
  rfl

theorem length_pageLine (word : Text) (words : List Text) (cmd : Cmd) :
    (pageLine word words cmd).length = (pageHeader word words.length cmd).length +
      printedLen ((pageOf words cmd).map (' ' :: ·)) := by
  rw [pageLine_eq, List.length_append, List.length_flatten, printedLen]

section Page

variable (hword : word.length ≤ 100) (hlen : words.length < 2 ^ 31)
  (hused : (pagingOf cmd).used = true)
include hword hlen hused

theorem exists_replyWords_page :
    ∃ q, q <+: pageLine word words cmd ∧
      replyWords (listReply word (words.map (' ' :: ·)) cmd).text = replyWords q ∧
      (q = pageLine word words cmd ↔ PageShort word words cmd) := by
  have hheader := length_pageHeader_le word cmd hlen
  have htext : (listReply word (words.map (' ' :: ·)) cmd).text = _ := (holds_page hused).1
  have hline := pageLine_eq word words cmd
  have hlinelen := length_pageLine word words cmd
  have hoff : (pageHeader word words.length cmd).length < maxLineLen - 32 := by
    unfold maxLineLen
    omega
  have hguard : guardedCount _ ((pageOf words cmd).map (' ' :: ·)) = _ ↔ _ :=
    guardedCount_eq_length_iff hoff
  have hprinted : printedPage word (words.map (' ' :: ·)) cmd =
      ((pageOf words cmd).map (' ' :: ·)).take (guardedCount
        (pageHeader word words.length cmd).length ((pageOf words cmd).map (' ' :: ·))) := by
    rw [printedPage, pageOf_map, List.length_map]
  have hcount := guardedCount_le (pageHeader word words.length cmd).length
    ((pageOf words cmd).map (' ' :: ·))
  rw [List.length_map, hprinted] at htext
  generalize guardedCount (pageHeader word words.length cmd).length
    ((pageOf words cmd).map (' ' :: ·)) = k at hguard htext hcount
  generalize hpage : (pageOf words cmd).map (' ' :: ·) = page at *
  have hpos : ∀ entry ∈ page, entry ≠ [] := by
    rintro entry hentry rfl
    rw [← hpage] at hentry
    simp at hentry
  refine ⟨(pageHeader word words.length cmd ++ (page.take k).flatten).take (maxLineLen - 1), ?_,
    ?_, ?_⟩
  · rw [hline]
    refine (List.take_prefix _ _).trans ((List.prefix_append_right_inj _).mpr ?_)
    conv_rhs => rw [← List.take_append_drop k page, List.flatten_append]
    exact List.prefix_append _ _
  · rw [htext]
    exact replyWords_take _ _
  · constructor
    · intro hq
      have hshort := congrArg List.length hq
      rw [List.length_take, List.length_append, List.length_flatten, hlinelen] at hshort
      have hk : k = page.length := by
        by_contra hne
        have hlt := printedLen_take_lt hpos (lt_of_le_of_ne hcount hne)
        rw [printedLen, printedLen] at hlt
        rw [printedLen] at hshort
        omega
      refine ⟨by rw [hpage]; exact hguard.mp hk, ?_⟩
      rw [hlinelen]
      unfold maxLineLen at hshort ⊢
      omega
    · rintro ⟨hfull, hfits⟩
      rw [hpage] at hfull
      rw [hguard.mpr hfull, List.take_length, ← hline,
        List.take_of_length_le (Nat.le_sub_one_of_lt hfits)]

variable (hentry : IsEntry word) (hwords : ∀ w ∈ words, IsEntry w)
include hentry

theorem replyWords_header : ∃ rest, replyWords (listReply word (words.map (' ' :: ·)) cmd).text =
    word :: (pageNumbers words.length cmd ++ rest) := by
  have hheader := length_pageHeader_le word cmd hlen
  have htext : (listReply word (words.map (' ' :: ·)) cmd).text = _ := (holds_page hused).1
  rw [List.length_map, List.append_assoc, snprintf, List.take_append,
    List.take_of_length_le (by unfold maxLineLen; omega), pageHeader_eq] at htext
  generalize hrest : List.take _ (_ ++ ['\n']) = rest at htext
  have hhead : ∀ c ∈ rest.head?, isBreak c := by
    intro c hc
    rw [← hrest, List.head?_take] at hc
    split_ifs at hc
    · simp at hc
    cases hprinted : printedPage word (words.map (' ' :: ·)) cmd with
    | nil =>
      rw [hprinted] at hc
      obtain rfl : '\n' = c := by simpa using hc
      rfl
    | cons entry page =>
      have hmem : entry ∈ words.map (' ' :: ·) :=
        mem_of_mem_pageOf (List.mem_of_mem_take (hprinted ▸ List.mem_cons_self))
      obtain ⟨w, -, rfl⟩ := List.mem_map.mp hmem
      rw [hprinted] at hc
      obtain rfl : ' ' = c := by simpa using hc
      rfl
  refine ⟨replyWords rest, ?_⟩
  have hcut : ¬ Inside isBreak (word ++ spaced (pageNumbers words.length cmd)) rest := by
    rintro ⟨-, -, c, hc, -, hsep⟩
    simp [hhead c hc] at hsep
  rw [htext, replyWords, tokens_append hcut]
  exact congrArg (· ++ replyWords rest) (replyWords_spaced hentry (isEntry_numbers _ _))

include hwords

/-- A page holds at most the bytes of the words of its whole line, and all only if it is short. -/
theorem length_replyWords_page :
    (replyWords (listReply word (words.map (' ' :: ·)) cmd).text).flatten.length ≤
        (replyWords (pageLine word words cmd)).flatten.length ∧
      ((replyWords (pageLine word words cmd)).flatten.length ≤
        (replyWords (listReply word (words.map (' ' :: ·)) cmd).text).flatten.length →
          PageShort word words cmd) := by
  obtain ⟨q, hpre, htext, hiff⟩ := exists_replyWords_page hword hlen hused
  rw [htext]
  constructor
  · obtain ⟨r, hr⟩ := hpre
    rw [← hr, replyWords, replyWords, flatten_tokens, flatten_tokens, List.filter_append,
      List.length_append]
    omega
  · intro hle
    refine hiff.mp (eq_of_prefix_of_length hpre
      (not_break_getLast hentry (isEntry_page hwords)) hle)

theorem replyWords_page_iff :
    replyWords (listReply word (words.map (' ' :: ·)) cmd).text =
      word :: (pageNumbers words.length cmd ++ pageOf words cmd) ↔ PageShort word words cmd := by
  rw [← replyWords_pageLine hentry hwords]
  constructor
  · intro heq
    exact (length_replyWords_page hword hlen hused hentry hwords).2 (by rw [heq])
  · intro hshort
    obtain ⟨q, -, htext, hiff⟩ := exists_replyWords_page hword hlen hused
    rw [htext, hiff.mpr hshort]

end Page

/-! ## Page after page -/

/-- The count field of a page. -/
def pageCount (text : Text) : ℤ :=
  match (replyWords text)[3]? with
  | some s => atoi s
  | none => 0

/-- The entries of a page. -/
def pageEntries (text : Text) : List Text := (replyWords text).drop 4

/-- The entries that a client gets that asks page after page, until the count is 0. -/
inductive Walk (request : ℕ → Text) : ℕ → List Text → Prop
  | done {offset : ℕ} (h : pageCount (request offset) = 0) : Walk request offset []
  | page {offset count : ℕ} {rest : List Text} (h : pageCount (request offset) = count)
      (hne : count ≠ 0) (hrest : Walk request (offset + count) rest) :
      Walk request offset (pageEntries (request offset) ++ rest)

/-- Pages of at most `size` entries, each whole if it is short. -/
structure Paged (request : ℕ → Text) (words : List Text) (size : ℕ) (short : ℕ → Prop) :
    Prop where
  pos : 0 < size
  count : ∀ o ≤ words.length, pageCount (request o) = (min size (words.length - o) : ℕ)
  le : ∀ o ≤ words.length, (pageEntries (request o)).flatten.length ≤
    ((words.drop o).take size).flatten.length
  short_of_le : ∀ o ≤ words.length, ((words.drop o).take size).flatten.length ≤
    (pageEntries (request o)).flatten.length → short o
  whole : ∀ o ≤ words.length, short o → pageEntries (request o) = (words.drop o).take size

namespace Paged

variable {request : ℕ → Text} {size o : ℕ} {short : ℕ → Prop} {l : List Text}

theorem take_append_drop (words : List Text) (o size : ℕ) :
    (words.drop o).take size ++ words.drop (o + min size (words.length - o)) = words.drop o := by
  have htake : (words.drop o).take size = (words.drop o).take (min size (words.length - o)) := by
    rw [List.take_eq_take_iff, List.length_drop]
    omega
  rw [htake, ← List.drop_drop, List.take_append_drop]

/-- Short pages, one after another, list everything. -/
theorem walk_of_short (h : Paged request words size short) (ho : o ≤ words.length)
    (hshort : ∀ k, o + k * size < words.length → short (o + k * size)) :
    Walk request o (words.drop o) := by
  induction hn : words.length - o using Nat.strongRecOn generalizing o with
  | _ n ih =>
    have hcount := h.count o ho
    have hpos := h.pos
    rcases ho.eq_or_lt with rfl | hlt
    · rw [List.drop_length]
      refine .done ?_
      rw [hcount]
      simp
    · have hrest : Walk request (o + min size (words.length - o))
          (words.drop (o + min size (words.length - o))) := by
        refine ih _ (by omega) (by omega) (fun k hk => ?_) rfl
        have hmin : min size (words.length - o) = size := by
          by_contra hne
          have hkpos := Nat.zero_le (k * size)
          omega
        have hnext : o + size + k * size = o + (k + 1) * size := by
          rw [Nat.succ_mul]
          omega
        rw [hmin, hnext] at hk ⊢
        exact hshort (k + 1) hk
      have hpage := Walk.page hcount (by omega) hrest
      rw [h.whole o ho (by simpa using hshort 0 (by simpa using hlt))] at hpage
      rwa [take_append_drop] at hpage

/-- What a client gets holds no more than there is, and all of it only if the pages are short. -/
theorem short_of_walk (h : Paged request words size short) (hwalk : Walk request o l)
    (ho : o ≤ words.length) :
    l.flatten.length ≤ (words.drop o).flatten.length ∧
      ((words.drop o).flatten.length ≤ l.flatten.length →
        ∀ k, o + k * size < words.length → short (o + k * size)) := by
  induction hwalk with
  | @done o hzero =>
    rw [h.count o ho] at hzero
    have hpos := h.pos
    refine ⟨Nat.zero_le _, fun _ k hk => ?_⟩
    omega
  | @page o count rest hcount hne hrest ih =>
    rw [h.count o ho] at hcount
    obtain rfl : min size (words.length - o) = count := by exact_mod_cast hcount
    obtain ⟨hle, hall⟩ := ih (by omega)
    have hsplit : (words.drop o).flatten.length = ((words.drop o).take size).flatten.length +
        (words.drop (o + min size (words.length - o))).flatten.length := by
      rw [← List.length_append, ← List.flatten_append, take_append_drop]
    have hpage := h.le o ho
    rw [List.flatten_append, List.length_append, hsplit]
    refine ⟨by omega, fun hfull k hk => ?_⟩
    cases k with
    | zero => simpa using h.short_of_le o ho (by omega)
    | succ k =>
      have hnext : o + (k + 1) * size = o + size + k * size := by
        rw [Nat.succ_mul]
        omega
      have hmin : min size (words.length - o) = size := by
        have hkpos := Nat.zero_le (k * size)
        omega
      rw [hmin] at hall hfull
      rw [hnext] at hk ⊢
      exact hall (by omega) k hk

theorem walk_iff (h : Paged request words size short) :
    Walk request 0 words ↔ ∀ k, k * size < words.length → short (k * size) := by
  constructor
  · intro hwalk k hk
    have hshort := (h.short_of_walk hwalk (Nat.zero_le _)).2 le_rfl k
    rw [Nat.zero_add] at hshort
    exact hshort hk
  · intro hshort
    refine h.walk_of_short (Nat.zero_le _) fun k hk => ?_
    rw [Nat.zero_add] at hk ⊢
    exact hshort k hk

end Paged

/-! ## ROOMS and WHO -/

/-- An entry of WHO without the space before it. -/
def whoWord (reg : Registry) (room : RoomPtr) (m : ClientPtr) : Text :=
  (if (reg.rooms room).adminClient = some m then ['*'] else []) ++
    (reg.clients m).clientName ++ '/' :: statusWord (reg.clients m).status

/-- The lists that are read in pages. -/
inductive Listing where
  | rooms
  | who (room : RoomPtr)

namespace Listing

def type : Listing → CmdType
  | .rooms => .rooms
  | .who _ => .who

def replyWord : Listing → Text
  | .rooms => replyRooms
  | .who _ => replyWho

/-- The entries of the list. -/
def listed (reg : Registry) : Listing → List Text
  | .rooms => reg.roomList.map fun r => (reg.rooms r).roomName
  | .who room => (reg.rooms room).members.map (whoWord reg room)

def buf (reg : Registry) (cmd : Cmd) : Listing → ListBuf
  | .rooms => roomsReply cmd reg
  | .who room => whoReply cmd room reg

def reply (l : Listing) (reg : Registry) (cmd : Cmd) : Text := (l.buf reg cmd).text

/-- The offset of a request within the list. -/
def offset (cmd : Cmd) (total : ℕ) : ℕ :=
  match cmd.arg1 with
  | some s => min (atoi s).toNat total
  | none => 0

/-- A reply has the entries from the offset on, as many as its count field says. -/
def PageExact (l : Listing) (reg : Registry) (cmd : Cmd) : Prop :=
  let total := (l.listed reg).length
  ∃ count : ℕ, offset cmd total + count ≤ total ∧
    replyWords (l.reply reg cmd) = l.replyWord :: decimal total :: decimal (offset cmd total) ::
      decimal count :: ((l.listed reg).drop (offset cmd total)).take count

/-- The request for the page at an offset. -/
def request (l : Listing) (limit : Text) (offset : ℕ) : Cmd :=
  { type := l.type, arg1 := some (decimal offset), arg2 := some limit }

/-- The number of entries asked for, which is at most 1000. -/
def pageSize (limit : Text) : ℕ := min (atoi limit).toNat 1000

end Listing

/-- The names of rooms and clients are ones the server accepts, and they are not too many. -/
structure NamesAccepted (reg : Registry) : Prop where
  rooms : ∀ r ∈ reg.roomList, AcceptedName maxRoomNameLen (reg.rooms r).roomName
  clients : ∀ r, ∀ m ∈ (reg.rooms r).members, AcceptedName maxUsernameLen (reg.clients m).clientName
  roomCount : reg.roomList.length < 2 ^ 31
  memberCount : ∀ r, (reg.rooms r).members.length < 2 ^ 31

variable {reg : Registry} {l : Listing} {limit : Text}

theorem AcceptedName.isEntry {size : ℕ} (h : AcceptedName size s) : IsEntry s :=
  ⟨h.toIsWord, h.noNewline⟩

theorem NamesAccepted.isEntry (h : NamesAccepted reg) (l : Listing) :
    ∀ w ∈ l.listed reg, IsEntry w := by
  intro w hw
  cases l with
  | rooms =>
    obtain ⟨r, hr, rfl⟩ := List.mem_map.mp hw
    exact (h.rooms r hr).isEntry
  | who room =>
    obtain ⟨m, hm, rfl⟩ := List.mem_map.mp hw
    have hname := (h.clients room m hm).isEntry
    have hstatus : ∀ status, IsEntry (statusWord status) := by
      rintro (_ | _ | _) <;> exact ⟨⟨by decide, by decide⟩, by decide⟩
    have hst := hstatus (reg.clients m).status
    refine ⟨⟨by simp [whoWord], ?_⟩, ?_⟩
    · have hspace := hst.noSpace
      have hname' := hname.noSpace
      unfold whoWord
      split_ifs <;> simp [hspace, hname']
    · have hnewline := hst.noNewline
      have hname' := hname.noNewline
      unfold whoWord
      split_ifs <;> simp [hnewline, hname']

theorem NamesAccepted.length_listed (h : NamesAccepted reg) (l : Listing) :
    (l.listed reg).length < 2 ^ 31 := by
  cases l with
  | rooms => simpa [Listing.listed] using h.roomCount
  | who room => simpa [Listing.listed] using h.memberCount room

namespace Listing

theorem buf_eq (l : Listing) (reg : Registry) (cmd : Cmd) :
    l.buf reg cmd = listReply l.replyWord ((l.listed reg).map (' ' :: ·)) cmd := by
  cases l with
  | rooms =>
    rw [buf, roomsReply, listed, List.map_map]
    rfl
  | who room =>
    rw [buf, whoReply, listed, List.map_map]
    rfl

theorem reply_eq (l : Listing) (reg : Registry) (cmd : Cmd) :
    l.reply reg cmd = (listReply l.replyWord ((l.listed reg).map (' ' :: ·)) cmd).text := by
  rw [reply, buf_eq]

theorem isEntry_replyWord (l : Listing) : IsEntry l.replyWord ∧ l.replyWord.length ≤ 100 := by
  cases l with
  | rooms => exact ⟨⟨⟨by decide, by decide⟩, by decide⟩, by decide⟩
  | who room =>
    change IsEntry replyWho ∧ replyWho.length ≤ 100
    exact ⟨⟨⟨by decide, by decide⟩, by decide⟩, by decide⟩

theorem offset_eq (cmd : Cmd) (total : ℕ) : (pagingOf cmd).start total = offset cmd total := by
  unfold pagingOf Paging.start offset
  cases cmd.arg1 with
  | none => simp
  | some s =>
    simp only
    split_ifs <;> omega

theorem pagingOf_request (hlimit : 1 ≤ atoi limit) {o total : ℕ} (ho : o ≤ total)
    (htotal : total < 2 ^ 31) :
    (pagingOf (l.request limit o)).used = true ∧
      (pagingOf (l.request limit o)).start total = o ∧
      (pagingOf (l.request limit o)).count total = min (pageSize limit) (total - o) := by
  have hstart : (pagingOf (l.request limit o)).start total = o := by
    rw [offset_eq]
    simp only [offset, request, atoi_decimal (show o < 2 ^ 31 by omega)]
    omega
  refine ⟨rfl, hstart, ?_⟩
  unfold Paging.count
  simp only [hstart]
  unfold pagingOf request pageSize
  simp only
  split_ifs <;> omega

theorem paged (h : NamesAccepted reg) (l : Listing) (hlimit : 1 ≤ atoi limit) :
    Paged (fun o => l.reply reg (l.request limit o)) (l.listed reg) (pageSize limit)
      fun o => PageShort l.replyWord (l.listed reg) (l.request limit o) := by
  have htotal := h.length_listed l
  have hwords := h.isEntry l
  obtain ⟨hentry, hword⟩ := l.isEntry_replyWord
  have hpage (o : ℕ) (ho : o ≤ (l.listed reg).length) :
      pageOf (l.listed reg) (l.request limit o) =
        ((l.listed reg).drop o).take (pageSize limit) := by
    obtain ⟨-, hstart, hcount⟩ := pagingOf_request (l := l) hlimit ho htotal
    rw [pageOf, hstart, hcount, List.take_eq_take_iff, List.length_drop]
    omega
  have hreply (o : ℕ) (ho : o ≤ (l.listed reg).length) :
      replyWords (l.reply reg (l.request limit o)) =
        l.replyWord :: (pageNumbers (l.listed reg).length (l.request limit o) ++
          pageEntries (l.reply reg (l.request limit o))) := by
    obtain ⟨hused, -, -⟩ := pagingOf_request (l := l) hlimit ho htotal
    obtain ⟨rest, hrest⟩ := replyWords_header hword htotal hused hentry
    rw [l.reply_eq, pageEntries, hrest]
    rfl
  have hbytes (o : ℕ) (ho : o ≤ (l.listed reg).length) :
      (pageEntries (l.reply reg (l.request limit o))).flatten.length ≤
          (((l.listed reg).drop o).take (pageSize limit)).flatten.length ∧
        ((((l.listed reg).drop o).take (pageSize limit)).flatten.length ≤
          (pageEntries (l.reply reg (l.request limit o))).flatten.length →
            PageShort l.replyWord (l.listed reg) (l.request limit o)) := by
    obtain ⟨hused, -, -⟩ := pagingOf_request (l := l) hlimit ho htotal
    obtain ⟨hle, hshort⟩ := length_replyWords_page hword htotal hused hentry hwords
    rw [replyWords_pageLine hentry hwords, hpage o ho, ← l.reply_eq, hreply o ho] at hle hshort
    simp only [List.flatten_cons, List.flatten_append, List.length_append] at hle hshort
    exact ⟨by omega, fun h => hshort (by omega)⟩
  refine ⟨?_, fun o ho => ?_, fun o ho => (hbytes o ho).1, fun o ho => (hbytes o ho).2,
    fun o ho hshort => ?_⟩
  · unfold pageSize
    omega
  · obtain ⟨-, -, hcount⟩ := pagingOf_request (l := l) hlimit ho htotal
    have hfield := congrArg (·[3]?) (hreply o ho)
    simp only [pageNumbers, List.cons_append, List.getElem?_cons_succ, List.getElem?_cons_zero]
      at hfield
    rw [pageCount, hfield]
    simp only
    rw [atoi_decimal, hcount]
    rw [hcount]
    omega
  · obtain ⟨hused, -, -⟩ := pagingOf_request (l := l) hlimit ho htotal
    have hwhole := (replyWords_page_iff hword htotal hused hentry hwords).mpr hshort
    rw [← l.reply_eq, hpage o ho] at hwhole
    rw [pageEntries, hwhole]
    rfl

/--
A page of ROOMS or WHO has the entries from its offset on, as many as its count
field says, exactly if it is short, and page after page lists every entry in
order exactly if the pages are short.
-/
theorem pages_iff (h : NamesAccepted reg) (l : Listing) :
    (∀ cmd, (pagingOf cmd).used = true →
      (l.PageExact reg cmd ↔ PageShort l.replyWord (l.listed reg) cmd)) ∧
    (∀ limit, 1 ≤ atoi limit →
      (Walk (fun o => l.reply reg (l.request limit o)) 0 (l.listed reg) ↔
        ∀ k, k * pageSize limit < (l.listed reg).length →
          PageShort l.replyWord (l.listed reg) (l.request limit (k * pageSize limit)))) := by
  have htotal := h.length_listed l
  have hwords := h.isEntry l
  obtain ⟨hentry, hword⟩ := l.isEntry_replyWord
  refine ⟨fun cmd hused => ?_, fun limit hlimit => (paged h l hlimit).walk_iff⟩
  rw [← replyWords_page_iff hword htotal hused hentry hwords, ← l.reply_eq]
  have hstart := offset_eq cmd (l.listed reg).length
  have hlength := length_pageOf (l.listed reg) cmd
  constructor
  · rintro ⟨count, -, hexact⟩
    obtain ⟨rest, hrest⟩ := replyWords_header hword htotal hused hentry
    rw [← l.reply_eq, hexact] at hrest
    simp only [pageNumbers, hstart, List.cons_append, List.nil_append, List.cons.injEq, true_and]
      at hrest
    rw [hexact, pageOf, pageNumbers, hstart, decimal_inj hrest.1]
    rfl
  · intro hexact
    refine ⟨(pagingOf cmd).count (l.listed reg).length, ?_, ?_⟩
    · rw [← hlength, pageOf, List.length_take, List.length_drop, hstart]
      have : offset cmd (l.listed reg).length ≤ (l.listed reg).length :=
        hstart ▸ Paging.start_le _ _
      omega
    · rw [hexact, pageOf, pageNumbers, hstart]
      rfl

theorem namesAccepted_village : NamesAccepted village where
  rooms := by
    intro r hr
    have hr : r = 0 ∨ r = 1 ∨ r = 2 := by simpa [village] using hr
    rcases hr with rfl | rfl | rfl <;>
      exact ⟨⟨by decide, by decide⟩, by decide, by decide, by decide⟩
  clients := by
    intro r c _
    unfold village
    simp only
    split_ifs <;> exact ⟨⟨by decide, by decide⟩, by decide, by decide, by decide⟩
  roomCount := admitted_village.roomCount
  memberCount := admitted_village.memberCount

/-- A page of two rooms is exact, and pages of two list the three members one after another. -/
theorem village_pages :
    Listing.rooms.PageExact village (parseLine "ROOMS 1 2".toList) ∧
      Walk (fun o => (Listing.who 0).reply village ((Listing.who 0).request "2".toList o)) 0
        ["*alice/ONLINE".toList, "bob/ONLINE".toList, "carol/ONLINE".toList] := by
  have hlisted : (Listing.who 0).listed village =
      ["*alice/ONLINE".toList, "bob/ONLINE".toList, "carol/ONLINE".toList] := by decide
  have hrooms := (pages_iff namesAccepted_village .rooms).1 (parseLine "ROOMS 1 2".toList)
  have hwho := (pages_iff namesAccepted_village (.who 0)).2 "2".toList (by decide)
  refine ⟨(hrooms (by decide)).mpr ⟨by decide, by decide⟩, hlisted ▸ hwho.mpr fun k hk => ?_⟩
  have hk : k * 2 < 3 := hk
  obtain rfl | rfl : k = 0 ∨ k = 1 := by omega
  · exact ⟨by decide, by decide⟩
  · exact ⟨by decide, by decide⟩

/-- Of sixteen rooms with the longest names the reply has fifteen, but its count is sixteen. -/
theorem crowdedRun_not_pageExact :
    ¬ Listing.rooms.PageExact (run step (World.init ⟨16, 64, 16, 10⟩ .empty 0) crowdedRun).reg
      (parseLine "ROOMS 0 16".toList) := by
  rintro ⟨count, hle, hexact⟩
  have hread : (replyWords (Listing.rooms.reply
      (run step (World.init ⟨16, 64, 16, 10⟩ .empty 0) crowdedRun).reg
        (parseLine "ROOMS 0 16".toList))).length = 19 ∧
      (replyWords (Listing.rooms.reply
        (run step (World.init ⟨16, 64, 16, 10⟩ .empty 0) crowdedRun).reg
          (parseLine "ROOMS 0 16".toList)))[3]? = some "16".toList ∧
      (Listing.rooms.listed
        (run step (World.init ⟨16, 64, 16, 10⟩ .empty 0) crowdedRun).reg).length = 16 := by
    decide +kernel
  obtain ⟨hlen, hcount, htotal⟩ := hread
  rw [hexact] at hlen hcount
  have hsixteen : count = 16 := decimal_inj (Option.some.inj hcount)
  simp only [List.length_cons, List.length_take, List.length_drop] at hlen
  omega

end Listing

end ChatServer
