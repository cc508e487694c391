import ChatServer.Access.Sessions
import ChatServer.History.Archive

/-! # Texts without newlines

Lines are cut at newlines before they are parsed, so no argument holds one, and
neither does anything the server remembers of it: no name of a client or a
room, and no message, be it in a buffer or in the database.
-/

namespace ChatServer

open Library World

/-- The arguments of a command are pieces of a text. -/
def Cmd.CutFrom (command : Cmd) (s : Text) : Prop :=
  ∀ t, command.arg1 = some t ∨ command.arg2 = some t ∨ command.arg3 = some t → t.Sublist s

theorem parseArgs_cutFrom (type : CmdType) (rest : Text) : (parseArgs type rest).CutFrom rest := by
  have hr : (rest.dropWhile (· = ' ')).Sublist rest := List.dropWhile_sublist _
  unfold parseArgs
  split
  · simp [Cmd.CutFrom]
  · simp [Cmd.CutFrom]
  · simp [Cmd.CutFrom]
  · generalize rest.dropWhile (· = ' ') = r at hr
    have hword : (r.takeWhile (· ≠ ' ')).Sublist rest := (List.takeWhile_sublist _).trans hr
    split
    · simpa [Cmd.CutFrom] using hr
    · rename_i r₂ heq
      have hr₂ : r₂.Sublist rest :=
        (List.sublist_cons_self _ r₂).trans (heq ▸ (List.dropWhile_sublist _).trans hr)
      have hword₂ : (r₂.takeWhile (· ≠ ' ')).Sublist rest := (List.takeWhile_sublist _).trans hr₂
      split
      · rintro t (h | h | h) <;> cases h
        · exact hword
        · exact hr₂
      · rename_i r₃ heq₃
        have hr₃ : r₃.Sublist rest :=
          (List.sublist_cons_self _ r₃).trans (heq₃ ▸ (List.dropWhile_sublist _).trans hr₂)
        rintro t (h | h | h) <;> cases h
        · exact hword
        · exact hword₂
        · exact hr₃

theorem strtok_sublist (delim : Char → Bool) (s : Text) :
    (∀ t, (strtok delim s).1 = some t → t.Sublist s) ∧ (strtok delim s).2.Sublist s := by
  unfold strtok
  split
  · simp
  · rename_i heq
    have hs : (s.dropWhile delim).Sublist s := List.dropWhile_sublist _
    refine ⟨?_, (List.tail_sublist _).trans ((List.dropWhile_sublist _).trans hs)⟩
    rintro t ⟨⟩
    exact (List.takeWhile_sublist _).trans hs

theorem serverArgs_cutFrom (type : CmdType) (rest : Text) :
    (serverArgs type rest).CutFrom rest := by
  obtain ⟨h₁, hr₁⟩ := strtok_sublist (· = ' ') rest
  obtain ⟨h₂, hr₂⟩ := strtok_sublist (· = ' ') (strtokSpace rest).2
  obtain ⟨h₃, -⟩ := strtok_sublist (· = ' ') (strtokSpace (strtokSpace rest).2).2
  obtain ⟨hrest, -⟩ := strtok_sublist (fun _ => false) rest
  obtain ⟨hrest₁, -⟩ := strtok_sublist (fun _ => false) (strtokSpace rest).2
  have hnone (t : Text) : ¬ (none : Option Text) = some t := by simp
  intro t ht
  unfold serverArgs at ht
  cases type <;> simp only [hnone, or_false] at ht <;>
    first
    | exact h₁ t ht
    | exact hrest t ht
    | exact ht.elim (h₁ t) fun h => (h₂ t h).trans hr₁
    | exact ht.elim (h₁ t) fun h => (hrest₁ t h).trans hr₁
    | exact ht.elim (h₁ t) fun h => h.elim (fun h => (h₂ t h).trans hr₁)
        fun h => (h₃ t h).trans (hr₂.trans hr₁)

/-- The arguments of a command are pieces of its line. -/
theorem parseLine_cutFrom (line : Text) : (parseLine line).CutFrom line := by
  have hdrop (k : ℕ) : (line.drop k).Sublist line := List.drop_sublist k line
  have hnone (type : CmdType) : Cmd.CutFrom { type } line := by simp [Cmd.CutFrom]
  unfold parseLine
  simp only
  split_ifs with hinvalid
  · unfold parseIncomingCommandServer
    obtain ⟨-, hrest⟩ := strtok_sublist (· = ' ') line
    split
    · exact hnone _
    · rename_i rest heq
      have hsub : rest.Sublist line := by
        have hsnd : (strtokSpace line).2 = rest := by rw [heq]
        exact hsnd ▸ hrest
      split
      · exact fun t ht => (serverArgs_cutFrom _ rest t ht).trans hsub
      · exact hnone _
  · unfold preParseSrijalCommands at hinvalid ⊢
    split
    · split_ifs
      · exact fun t ht => (parseArgs_cutFrom _ _ t ht).trans (hdrop _)
      · exact hnone _
    · rename_i hfind
      simp only [hfind] at hinvalid
      split_ifs at hinvalid
      · exact absurd rfl hinvalid
      · exact absurd rfl hinvalid
      · exact absurd rfl hinvalid


/-- A line as the framing delivers it. -/
def Event.Tidy : Event → Prop
  | .line _ text => '\n' ∉ text
  | _ => True

/-- Tokens are thirty-two random bytes in hexadecimal. -/
def Env.Tidy (env : Env) : Prop := ∀ token ∈ env.tokens, token.length = 64 ∧ '\n' ∉ token

theorem not_mem_arg {line t : Text} (hline : '\n' ∉ line)
    (ht : (parseLine line).arg1 = some t ∨ (parseLine line).arg2 = some t ∨
      (parseLine line).arg3 = some t) : '\n' ∉ t :=
  fun h => hline ((parseLine_cutFrom line t ht).subset h)

/-- A name, cut to a field of 32 bytes. -/
def TidyName (n : Text) : Prop := n.length < 32 ∧ '\n' ∉ n

structure Message.Tidy (m : Message) : Prop where
  sender : TidyName m.sender
  text : m.text.length < maxTextLen ∧ '\n' ∉ m.text

structure MessageRow.Tidy (row : MessageRow) : Prop where
  sender : '\n' ∉ row.sender
  text : '\n' ∉ row.text

structure Session.Tidy (s : Session) : Prop where
  token : '\n' ∉ s.token
  username : '\n' ∉ s.username

/-- The texts of a database that the server prints. -/
structure Database.Tidy (db : Database) : Prop where
  messages : ∀ row ∈ db.messages.rows, row.Tidy
  sessions : ∀ s ∈ db.sessions.rows, s.Tidy

structure Shelf.Tidy (shelf : Shelf) : Prop where
  roomName : TidyName shelf.roomName
  slots : ∀ i, (shelf.history.slots i).Tidy

structure Archive.Tidy (a : Archive) : Prop where
  rows : ∀ row ∈ a.messages.rows, row.Tidy
  shelves : ∀ r, (a.shelves r).Tidy

/-- No newline in what the server remembers. -/
structure World.Tidy (w : World) : Prop where
  names : ∀ c, TidyName (w.client c).clientName
  archive : w.archive.Tidy
  sessions : ∀ s ∈ w.db.sessions.rows, s.Tidy

variable {env : Env} {w : World} {e : Event} {me : ClientPtr} {command : Cmd} {r : RoomPtr}
  {db db' : Database} {reg reg' : Registry} {sender text : Text} {m : Message} {msgId : ℤ}
  {h : RingBuffer Message}

theorem not_mem_strncpy {size : ℕ} {s : Text} (h : '\n' ∉ s) : '\n' ∉ strncpy size s :=
  fun hs => h (List.mem_of_mem_take hs)

theorem length_strncpy_lt {size : ℕ} (hsize : 0 < size) (s : Text) :
    (strncpy size s).length < size := by
  have := List.length_take_le (size - 1) s
  unfold strncpy
  omega

theorem tidyName_strncpy {s : Text} (h : '\n' ∉ s) : TidyName (strncpy 32 s) :=
  ⟨length_strncpy_lt (by decide) s, not_mem_strncpy h⟩

theorem tidy_newMessage (hsender : '\n' ∉ sender) (htext : '\n' ∉ text) :
    (newMessage env msgId sender text).Tidy where
  sender := tidyName_strncpy hsender
  text := ⟨length_strncpy_lt (by decide) text, not_mem_strncpy htext⟩

theorem MessageRow.Tidy.load {row : MessageRow} (h : row.Tidy) : row.load.Tidy where
  sender := tidyName_strncpy h.sender
  text := ⟨length_strncpy_lt (by decide) row.text, not_mem_strncpy h.text⟩

theorem tidy_zeroMessage : zeroMessage.Tidy where
  sender := ⟨by decide, by decide⟩
  text := ⟨by decide, by decide⟩

theorem tidy_write (hh : ∀ i, (h.slots i).Tidy) (hm : m.Tidy) (count : ℕ) :
    ∀ i, ((h.write m count).slots i).Tidy := by
  intro i
  rcases eq_or_ne i h.slot with rfl | hne
  · simpa [RingBuffer.write] using hm
  · simpa [RingBuffer.write, hne] using hh i

theorem tidy_set (hh : ∀ i, (h.slots i).Tidy) (hm : m.Tidy) (j : ℕ) :
    ∀ i, ((h.set j m).slots i).Tidy := by
  intro i
  rcases eq_or_ne i j with rfl | hne
  · simpa [RingBuffer.set] using hm
  · simpa [RingBuffer.set, hne] using hh i

theorem tidy_newRoom {n : Text} {creator : ClientPtr} (hn : '\n' ∉ n)
    (hrows : ∀ row ∈ db.messages.rows, row.Tidy) : (newRoom env n creator reg db).shelf.Tidy where
  roomName := tidyName_strncpy hn
  slots := by
    have hloaded : ∀ m ∈ loadedRows env n reg.historySize db, m.Tidy := by
      intro m hm
      replace hm := (loadedRows_sublist env n reg.historySize db).subset hm
      unfold dbLoadHistory at hm
      split_ifs at hm
      · cases hm
      · obtain ⟨row, hrow, rfl⟩ := List.mem_map.mp (Sql.mem_of_mem_rows hm)
        exact (hrows row (List.mem_filter.mp (mem_of_mem_rtake hrow)).1).load
    have hfold : ∀ (ms : List Message) (h : RingBuffer Message), (∀ m ∈ ms, m.Tidy) →
        (∀ i, (h.slots i).Tidy) → ∀ i, ((ms.foldl loadMessage h).slots i).Tidy := by
      intro ms
      induction ms with
      | nil => exact fun h _ hh => hh
      | cons m ms ih =>
        intro h hms hh
        obtain ⟨hm, hms⟩ := List.forall_mem_cons.mp hms
        refine ih _ hms (tidy_write hh ?_ _)
        exact ⟨tidyName_strncpy hm.sender.2,
          length_strncpy_lt (by decide) m.text, not_mem_strncpy hm.text.2⟩
    exact hfold _ _ hloaded fun _ => tidy_zeroMessage

theorem Archive.Tidy.setShelf {a : Archive} (ha : a.Tidy) {shelf : Shelf} (hs : shelf.Tidy) (r) :
    ∀ r', (Function.update a.shelves r shelf r').Tidy := by
  intro r'
  rcases eq_or_ne r' r with rfl | hne
  · simpa using hs
  · simpa [hne] using ha.shelves r'

theorem tidy_dbSaveMessage {roomName : Text} (hrows : ∀ row ∈ db.messages.rows, row.Tidy)
    (hsender : '\n' ∉ sender) (htext : '\n' ∉ text) :
    ∀ row ∈ (dbSaveMessage env roomName sender text db).2.messages.rows, row.Tidy := by
  unfold dbSaveMessage
  split
  · intro row hrow
    rcases List.mem_append.mp hrow with hrow | hrow
    · exact hrows row hrow
    · obtain rfl := List.mem_singleton.mp hrow
      exact ⟨hsender, htext⟩
  · exact hrows

theorem tidy_update {rows : List MessageRow} (hrows : ∀ row ∈ rows, row.Tidy)
    {p : MessageRow → Bool} {f : MessageRow → MessageRow} (hf : ∀ row, row.Tidy → (f row).Tidy) :
    ∀ row ∈ rows.map fun r => if p r then f r else r, row.Tidy := by
  intro row hrow
  obtain ⟨old, hold, rfl⟩ := List.mem_map.mp hrow
  split_ifs
  · exact hf old (hrows old hold)
  · exact hrows old hold

theorem tidy_dbEditMessage (hrows : ∀ row ∈ db.messages.rows, row.Tidy) (htext : '\n' ∉ text) :
    ∀ row ∈ (dbEditMessage env msgId text db).messages.rows, row.Tidy := by
  have hedit (row : MessageRow) (h : row.Tidy) :
      MessageRow.Tidy { row with text, editedAt := env.now } := ⟨h.sender, htext⟩
  unfold dbEditMessage
  split_ifs
  · exact hrows
  · split
    · exact tidy_update hrows hedit
    · exact hrows

theorem tidy_dbDeleteMessage (hrows : ∀ row ∈ db.messages.rows, row.Tidy) :
    ∀ row ∈ (dbDeleteMessage env msgId db).messages.rows, row.Tidy := by
  have hdelete (row : MessageRow) (h : row.Tidy) :
      MessageRow.Tidy { row with deleted := true, text := "[deleted]".toList } :=
    ⟨h.sender, (by decide : '\n' ∉ "[deleted]".toList)⟩
  unfold dbDeleteMessage
  split_ifs
  · exact hrows
  · split
    · exact tidy_update hrows hdelete
    · exact hrows

theorem tidy_changeMessage {mayChange : Message → Bool} {change : Message → Message}
    {h' : RingBuffer Message} (hh : ∀ i, (h.slots i).Tidy)
    (hchange : ∀ m : Message, m.Tidy → (change m).Tidy)
    (hok : changeMessage h msgId mayChange change = (.ok, h')) : ∀ i, (h'.slots i).Tidy := by
  unfold changeMessage at hok
  split at hok
  · cases hok
  · simp only at hok
    split_ifs at hok
    · cases hok
    · cases hok
    · cases hok
      exact tidy_set hh (hchange _ (hh _)) _

theorem tidy_archives {a : Archive} (hw : w.Tidy) (hargs : ∀ t,
      command.arg1 = some t ∨ command.arg2 = some t → '\n' ∉ t)
    (h : Archives env w me command a) : a.Tidy := by
  have ha : (archiveOf w.reg w.db).Tidy := hw.archive
  have hname : TidyName (w.client me).clientName := hw.names me
  cases h with
  | create ht h₁ made =>
    obtain ⟨r, ⟨⟩, -, -, -, rfl⟩ := createRoom_ok made
    refine ⟨ha.rows, ?_⟩
    change ∀ r', (shelvesOf (w.reg.setRoom _ _) r').Tidy
    rw [shelvesOf_setRoom]
    exact ha.setShelf (tidy_newRoom (hargs _ (.inl h₁)) ha.rows) _
  | @msg text room msgId db reg ht h₁ inside htext free added =>
    obtain ⟨rfl, hshelves⟩ := shelvesOf_of_added added
    have htidy := hargs _ (.inl h₁)
    refine ⟨tidy_dbSaveMessage ha.rows hname.2 htidy, ?_⟩
    simp only [archiveOf, hshelves]
    have hold : (shelvesOf w.reg room).Tidy := ha.shelves room
    by_cases hcap : (w.reg.rooms room).history.cap = 0
    · rw [if_pos hcap]
      exact ha.setShelf hold room
    · rw [if_neg hcap]
      have hnew : Shelf.Tidy ⟨(w.reg.rooms room).roomName, addMessage (w.reg.rooms room).history
          (newMessage env msgId (w.client me).clientName text)⟩ :=
        ⟨hold.roomName, tidy_write hold.slots (tidy_newMessage hname.2 htidy) _⟩
      exact ha.setShelf hnew room
  | @edit idStr newText room db reg ht h₁ h₂ inside htext hpos edited =>
    obtain ⟨rfl, h', hchange, hshelves⟩ := shelvesOf_of_edited edited
    have htidy := hargs _ (.inr h₂)
    refine ⟨tidy_dbEditMessage ha.rows htidy, ?_⟩
    simp only [archiveOf, hshelves]
    have hold : (shelvesOf w.reg room).Tidy := ha.shelves room
    have hedit (m : Message) (hm : m.Tidy) : Message.Tidy
        { m with text := strncpy maxTextLen newText, editedAt := env.now } :=
      ⟨hm.sender, length_strncpy_lt (by decide) newText, not_mem_strncpy htidy⟩
    have hchanged : ∀ i, (h'.slots i).Tidy := tidy_changeMessage hold.slots hedit hchange
    have hnew : Shelf.Tidy ⟨(w.reg.rooms room).roomName, h'⟩ := ⟨hold.roomName, hchanged⟩
    exact ha.setShelf hnew room
  | @delete idStr room db reg ht h₁ inside hpos deleted =>
    obtain ⟨rfl, h', hchange, hshelves⟩ := shelvesOf_of_deleted deleted
    refine ⟨tidy_dbDeleteMessage ha.rows, ?_⟩
    simp only [archiveOf, hshelves]
    have hold : (shelvesOf w.reg room).Tidy := ha.shelves room
    have hdelete (m : Message) (hm : m.Tidy) : Message.Tidy
        { m with deleted := true, text := strncpy maxTextLen "[deleted]".toList } :=
      ⟨hm.sender, length_strncpy_lt (by decide) _, not_mem_strncpy (by decide)⟩
    have hchanged : ∀ i, (h'.slots i).Tidy := tidy_changeMessage hold.slots hdelete hchange
    have hnew : Shelf.Tidy ⟨(w.reg.rooms room).roomName, h'⟩ := ⟨hold.roomName, hchanged⟩
    exact ha.setShelf hnew room

theorem NamedBy.not_mem (hw : w.Tidy) {n : Text} (h : NamedBy w text n) (htext : '\n' ∉ text) :
    '\n' ∉ n := by
  cases h with
  | argument h₁ => exact not_mem_arg htext (.inl h₁)
  | session hs => exact not_mem_strncpy (hw.sessions _ hs).username

/-- A tidy input keeps a tidy state tidy. -/
theorem World.Tidy.step (hw : w.Tidy) (henv : env.Tidy) (he : e.Tidy) :
    (ChatServer.step w (env, e)).Tidy where
  names := by
    intro c
    rcases step_renamed w env e c with hkept | ⟨⟨fd, text, rfl, hnamed⟩, hlen⟩
    · rw [hkept]
      exact hw.names c
    · exact ⟨hlen, hnamed.not_mem hw he⟩
  archive := by
    rcases step_archive w env e with hkept | ⟨conn, me, command, hcmd, hchange⟩
    · rw [hkept]
      exact hw.archive
    · obtain ⟨text, rfl, -, -, rfl⟩ := hcmd
      refine tidy_archives hw (fun t ht => not_mem_arg he ?_) hchange
      exact ht.imp_right Or.inl
  sessions := by
    intro s hs
    rcases step_sessions w env e s hs with hold | ⟨fd, text, rfl, htoken, hnamed⟩
    · exact hw.sessions s hold
    · exact ⟨(henv _ htoken).2, hnamed.not_mem hw he⟩

theorem tidyName_nil : TidyName [] := ⟨by decide, by decide⟩

theorem tidy_init (cfg : Config) {db : Database} (hdb : db.Tidy) (start : ℤ) :
    (World.init cfg db start).Tidy where
  names := fun _ => tidyName_nil
  archive := ⟨hdb.messages, fun _ => ⟨tidyName_nil, fun _ => tidy_zeroMessage⟩⟩
  sessions := hdb.sessions

theorem run_tidy (cfg : Config) {db : Database} (hdb : db.Tidy) (start : ℤ)
    {inputs : List (Env × Event)} (hin : ∀ input ∈ inputs, input.1.Tidy ∧ input.2.Tidy) :
    (run ChatServer.step (World.init cfg db start) inputs).Tidy := by
  refine run_invariant_along (C := fun _ input => input.1.Tidy ∧ input.2.Tidy)
    (I := World.Tidy) ?_ (tidy_init cfg hdb start) (along_of_forall hin)
  rintro w ⟨env, e⟩ hw ⟨henv, he⟩
  exact hw.step henv he

end ChatServer
