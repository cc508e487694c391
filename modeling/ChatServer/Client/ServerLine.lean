import Mathlib.Data.List.DropRight
import ChatServer.Protocol.Fields
import ChatServer.Protocol.ListReply

/-! # The lines the client gets

`handle_server_line` cuts a line into the fields of its format and shows them.
The cutting is `decodeLine` here, and `ServerLine.shown` and
`ServerLine.update` are what is done with the fields.
-/

namespace ChatServer

open Library

/-- The token loop `while ((tok = next_token(&rest, ...)) != NULL)`, at most `n` times. -/
def strtokLoop (delim : Char → Bool) : ℕ → Text → List Text
  | 0, _ => []
  | n + 1, s =>
    match strtok delim s with
    | (none, _) => []
    | (some t, rest) => t :: strtokLoop delim n rest

/-- All tokens, each of which takes a byte at least. -/
def nextTokens (delim : Char → Bool) (s : Text) : List Text := strtokLoop delim s.length s

/-- `strtol` and `strtoll` stop at the end of the string. -/
def isNumeric (s : Text) : Bool :=
  match s.dropWhile isSpace with
  | '-' :: t => t ≠ [] && t.all Char.isDigit
  | '+' :: t => t ≠ [] && t.all Char.isDigit
  | t => s = [] || t ≠ [] && t.all Char.isDigit

/-- The pagination numbers of a list reply. -/
structure ListHeader where
  total : ℤ
  offset : ℤ
  count : ℤ
  deriving DecidableEq, Repr

/-- An entry of a WHO reply. -/
structure WhoEntry where
  isAdmin : Bool
  name : Text
  st : Option Text
  deriving DecidableEq, Repr

/-- The fields of a line, by its format. -/
inductive ServerLine where
  | silent
  | ok (status token : Option Text)
  | err (code : Option Text)
  | history (started : Bool) (room : Text)
  | notice (user action room : Text)
  | msg (id : Option Text) (sender text : Text)
  | edited (id newText : Text)
  | deleted (id : Text)
  | historyReply (room cursor cnt : Option Text)
  | pmFrom (sender text : Text)
  | sessions (count : ℤ) (tokens : List Text)
  | readReceipt (msgId reader : Text)
  | typing (user : Text)
  | stopTyping (user : Text)
  | logout
  | endHistory
  | who (header : Option ListHeader) (entries : List WhoEntry)
  | rooms (header : Option ListHeader) (names : List Text)
  | unknown (line : Text)
  deriving DecidableEq, Repr

/-- A numeric token and what follows it. -/
def nextNumber (rest : Text) : Option (ℤ × Text) :=
  match strtokSpace rest with
  | (some t, rest) => if isNumeric t then some (atoi t, rest) else none
  | (none, _) => none

/-- The pagination numbers and what follows them, if the next three tokens are numeric. -/
def listHeader (rest : Text) : Option (ListHeader × Text) := do
  let (total, rest) ← nextNumber rest
  let (offset, rest) ← nextNumber rest
  let (count, rest) ← nextNumber rest
  return (⟨total, offset, count⟩, rest)

/-- The text after `rest = save`, which ends where the first token was cut off. -/
def rewound (rest : Text) : Text :=
  match strtokSpace rest with
  | (some t, _) => rest.takeWhile (· = ' ') ++ t
  | (none, _) => rest

/-- The pagination numbers if there are any, and the tokens after them. -/
def listTokens (rest : Text) : Option ListHeader × List Text :=
  match listHeader rest with
  | some (header, rest) => (some header, nextTokens (· = ' ') rest)
  | none => (none, nextTokens (· = ' ') (rewound rest))

/-- The admin mark, the name and the status of an entry. -/
def whoFields (entry : Text) : WhoEntry :=
  let isAdmin := entry.head? = some '*'
  let name := if isAdmin then entry.tail else entry
  if '/' ∈ name then
    ⟨isAdmin, name.takeWhile (· ≠ '/'), some (name.dropWhile (· ≠ '/')).tail⟩
  else ⟨isAdmin, name, none⟩

/-- The fields of a NOTICE, where the user `history` marks a delimiter. -/
def decodeNotice (rest : Text) : ServerLine :=
  let (user, rest) := strtokSpace rest
  let (action, rest) := strtokSpace rest
  let (room, _) := strtokSpace rest
  match user, action, room with
  | some user, some action, some room =>
    if user = "history".toList then .history (action = "START".toList) room
    else .notice user action room
  | _, _, _ => .silent

/-- The fields of a MSG, with an id or without one. -/
def decodeMsg (rest : Text) : ServerLine :=
  match strtokSpace rest with
  | (none, _) => .silent
  | (some firstTok, rest) =>
    if isNumeric firstTok ∧ rest ≠ [] then
      match strtokSpace rest with
      | (some sender, text) => .msg (some firstTok) sender text
      | (none, _) => .silent
    else .msg none firstTok rest

/-- The fields after the first word of a line. -/
def decodeFields (line first rest : Text) : ServerLine :=
  let (t₁, r₁) := strtokSpace rest
  let (t₂, r₂) := strtokSpace r₁
  let (t₃, _) := strtokSpace r₂
  if first = replyOk then .ok t₁ t₂
  else if first = replyErr then .err t₁
  else if first = replyNotice then decodeNotice rest
  else if first = replyMsg then decodeMsg rest
  else if first = replyEdited then
    match t₁ with
    | some id => .edited id r₁
    | none => .silent
  else if first = replyDeleted then
    match t₁ with
    | some id => .deleted id
    | none => .silent
  else if first = replyHistory then .historyReply t₁ t₂ t₃
  else if first = replyPmFrom then
    match t₁ with
    | some sender => .pmFrom sender r₁
    | none => .silent
  else if first = replySessions then
    .sessions (match t₁ with | some s => atoi s | none => 0) (nextTokens (· = ' ') r₁)
  else if first = replyReadReceipt then
    match t₁, t₂ with
    | some msgId, some reader => .readReceipt msgId reader
    | _, _ => .silent
  else if first = replyTyping then
    match t₁ with
    | some user => .typing user
    | none => .silent
  else if first = replyStopTyping then
    match t₁ with
    | some user => .stopTyping user
    | none => .silent
  else if first = replyLogout then .logout
  else if first = "END_HISTORY".toList then .endHistory
  else if first = replyWho then
    let (header, entries) := listTokens rest
    .who header (entries.map whoFields)
  else if first = replyRooms then
    let (header, names) := listTokens rest
    .rooms header names
  else .unknown (line.takeWhile (· = ' ') ++ first)

/-- The line without the newlines at its end. -/
def stripLine (line : Text) : Text := line.rdropWhile fun c => c = '\n' || c = '\r'

/-- The fields that `handle_server_line` cuts a line into. -/
def decodeLine (line : Text) : ServerLine :=
  match strtokSpace (stripLine line) with
  | (none, _) => .silent
  | (some first, rest) => decodeFields (stripLine line) first rest

/-- A call of one of the display functions. -/
inductive Display where
  | system (text : Text)
  | notice (text : Text)
  | error (errCode : Text)
  | message (room user text : Text)
  | pm (fromUser text : Text)
  deriving DecidableEq, Repr

/-- The client's own state. -/
structure ClientState where
  currentRoom : Text := []
  running : Bool := true
  deriving DecidableEq, Repr

/-- The texts of the replies that carry a token. -/
def tokenTexts : List (Text × Text × Text × Option Text) :=
  [(okRegistered, "Registered successfully. Session token: ".toList, " (save for RECONNECT)".toList,
      some "Registered successfully.".toList),
   (okLoggedIn, "Logged in successfully. Session token: ".toList, [],
      some "Logged in successfully.".toList),
   (okReconnected, "Reconnected successfully. New token: ".toList, [],
      some "Reconnected successfully.".toList),
   ("SESSION".toList, "Session token: ".toList, [], none)]

/-- The texts of the other replies. -/
def okTexts : List (Text × Text) :=
  [(okCreated, "Room created. You are now in it.".toList),
   (okJoined, "Joined room.".toList),
   (okLeft, "Left the room.".toList),
   (okKicked, "User kicked.".toList),
   (okPromoted, "User promoted to admin.".toList),
   (okStatusSet, "Status updated.".toList),
   (replyLogout, "Logged out.".toList)]

def okShown (status : Text) (token : Option Text) : List Display :=
  match tokenTexts.lookup status with
  | some (before, after, plain) =>
    match token with
    | some token => [.system (snprintf 160 (before ++ token ++ after))]
    | none => plain.toList.map .system
  | none =>
    match okTexts.lookup status with
    | some text => [.system text]
    | none =>
      if status = okSent then []
      else [.system (snprintf 256 ([' '].intercalate (replyOk :: status :: token.toList)))]

def errShown (code : Option Text) : Display :=
  if code = some okKicked then .system "You have been kicked from the room.".toList
  else if code = some errServerShutdown then .system "Server is shutting down. Goodbye.".toList
  else if code = some errRateLimited then
    .error "Slow down \xe2\x80\x94 you are sending messages too fast.".toList
  else .error (code.getD "UNKNOWN".toList)

/-- The text shown for a NOTICE, before it is cut. -/
def noticeText (user action room : Text) : Text :=
  if action = okJoined then user ++ " joined ".toList ++ room
  else if action = okLeft then user ++ " left ".toList ++ room
  else if action = okKicked then user ++ " was kicked from ".toList ++ room
  else if action = okPromoted then user ++ " is now admin of ".toList ++ room
  else if action = statusOnline ∨ action = statusAway ∨ action = statusBusy then
    user ++ " is now ".toList ++ action
  else [' '].intercalate [user, action, room]

def noticeShown (user action room : Text) : Text := snprintf 256 (noticeText user action room)

def sessionsBuf (count : ℤ) (tokens : List Text) : ListBuf :=
  (ListBuf.print ("Active sessions (".toList ++ decimal count ++ "):".toList) {}).printAll
    (tokens.map (' ' :: ·))

def WhoEntry.shown (entry : WhoEntry) : Text :=
  " [".toList ++ (if entry.isAdmin then ['*'] else []) ++ entry.name ++
    (match entry.st with | some st => '/' :: st | none => []) ++ "]".toList

/-- The start of the line that shows a WHO reply, with the positions of the first and last entry. -/
def whoHead : Option ListHeader → Text
  | some h =>
    let last := if h.offset + h.count - 1 < 0 then 0 else h.offset + h.count - 1
    "Users in room (".toList ++ decimal h.total ++ " total, ".toList ++ decimal h.offset ++
      "-".toList ++ decimal last ++ "):".toList
  | none => "Users in room:".toList

/-- The end of the line for a page without entries. -/
def whoTail : Option ListHeader → Text
  | some h => if h.count = 0 then " (no entries in this page)".toList else []
  | none => []

def whoBuf (header : Option ListHeader) (entries : List WhoEntry) : ListBuf :=
  ((ListBuf.print (whoHead header) {}).printAll (entries.map WhoEntry.shown)).print (whoTail header)

/-- The start of the line that shows a ROOMS reply. -/
def roomsHead : Option ListHeader → Text
  | some h =>
    "Active rooms (".toList ++ decimal h.total ++ " total, offset ".toList ++ decimal h.offset ++
      ", ".toList ++ decimal h.count ++ " shown):".toList
  | none => "Active rooms:".toList

/-- The end of the line for a page without rooms. -/
def roomsTail : Option ListHeader → List Text → Text
  | some _, [] => " (none)".toList
  | _, _ => []

def roomsBuf (header : Option ListHeader) (names : List Text) : ListBuf :=
  ((ListBuf.print (roomsHead header) {}).printAll (names.map (' ' :: ·))).print
    (roomsTail header names)

/-- What `handle_server_line` shows of the fields. -/
def ServerLine.shown (currentRoom : Text) : ServerLine → List Display
  | .silent => []
  | .ok none _ => [.system replyOk]
  | .ok (some status) token => okShown status token
  | .err code => [errShown code]
  | .history true room =>
    [.system (snprintf 256 ("--- last messages in ".toList ++ room ++ " ---".toList))]
  | .history false _ => [.system "--- end of history ---".toList]
  | .notice user action room => [.notice (noticeShown user action room)]
  | .msg id sender text =>
    let room := if currentRoom = [] then "?".toList else currentRoom
    match id with
    | some id => [.message room sender
        (snprintf (maxTextLen + 32) ("[".toList ++ id ++ "] ".toList ++ text))]
    | none => [.message room sender text]
  | .edited id newText =>
    [.notice (snprintf 512 ("Message ".toList ++ id ++ " edited: ".toList ++ newText))]
  | .deleted id => [.notice (snprintf 256 ("Message ".toList ++ id ++ " deleted".toList))]
  | .historyReply room cursor cnt =>
    [.system (snprintf 256 ("History ".toList ++ room.getD "?".toList ++ " cursor=".toList ++
      cursor.getD "0".toList ++ " count=".toList ++ cnt.getD "0".toList))]
  | .pmFrom sender text => [.pm sender text]
  | .sessions count tokens =>
    if count = 0 then [.system "No active sessions.".toList]
    else [.system (sessionsBuf count tokens).text]
  | .readReceipt msgId reader =>
    [.notice (snprintf 256 (reader ++ " read message #".toList ++ msgId))]
  | .typing user => [.notice (snprintf 128 (user ++ " is typing...".toList))]
  | .stopTyping user => [.notice (snprintf 128 (user ++ " stopped typing.".toList))]
  | .logout => [.system "Logged out.".toList]
  | .endHistory => [.system "--- end of history ---".toList]
  | .who header entries => [.system (whoBuf header entries).text]
  | .rooms header names => [.system (roomsBuf header names).text]
  | .unknown line => [.system line]

/-- What `handle_server_line` changes of the client's state. -/
def ServerLine.update (client : ClientState) : ServerLine → ClientState
  | .ok (some status) _ => if status = okLeft then { client with currentRoom := [] } else client
  | .err (some code) =>
    if code = okKicked then { client with currentRoom := [] }
    else if code = errServerShutdown then { client with running := false }
    else client
  | .notice _ action room =>
    if action = okJoined then { client with currentRoom := strncpy maxRoomNameLen room } else client
  | _ => client

def handleServerLine (line : Text) (client : ClientState) : ClientState × List Display :=
  ((decodeLine line).update client, (decodeLine line).shown client.currentRoom)

theorem tokens_strtok (delim : Char → Bool) (s : Text) :
    (strtok delim s = (none, []) ∧ tokens delim s = []) ∨
      ∃ t r, strtok delim s = (some t, r) ∧ t ≠ [] ∧ (∀ c ∈ t, delim c = false) ∧
        r.length < s.length ∧ tokens delim s = t :: tokens delim r := by
  have hsplit : tokens delim s = tokens delim (s.dropWhile delim) := by
    conv_lhs => rw [← List.takeWhile_append_dropWhile (p := delim) (l := s)]
    exact tokens_seps fun x hx => List.mem_takeWhile_imp hx
  have hlen := (List.dropWhile_sublist delim (l := s)).length_le
  have hfirst := List.head?_dropWhile_not delim s
  rw [hsplit, strtok]
  cases hs : s.dropWhile delim with
  | nil => exact .inl ⟨rfl, tokens_nil⟩
  | cons x l =>
    rw [hs] at hlen hfirst
    have htoken : ∀ y ∈ (x :: l).takeWhile (fun c => !delim c), delim y = false := fun y hy => by
      simpa using List.mem_takeWhile_imp hy
    have hne : (x :: l).takeWhile (fun c => !delim c) ≠ [] := by
      simpa [List.takeWhile_cons] using hfirst
    have hrest := List.takeWhile_append_dropWhile (p := fun c => !delim c) (l := x :: l)
    have hdrop := (List.dropWhile_sublist (fun c => !delim c) (l := x :: l)).length_le
    have hhead := List.head?_dropWhile_not (fun c => !delim c) (x :: l)
    refine .inr ⟨_, _, rfl, hne, htoken, ?_, ?_⟩
    · cases hr : (x :: l).dropWhile fun c => !delim c with
      | nil => simp only [List.tail_nil, List.length_nil, List.length_cons] at hlen ⊢; omega
      | cons d r =>
        rw [hr] at hdrop
        simp only [List.tail_cons, List.length_cons] at hdrop hlen ⊢
        omega
    · conv_lhs => rw [← hrest]
      cases hr : (x :: l).dropWhile fun c => !delim c with
      | nil => rw [List.append_nil, tokens_eq_singleton hne htoken, List.tail_nil, tokens_nil]
      | cons d r =>
        rw [hr] at hhead
        exact tokens_token hne htoken (by simpa using hhead)

theorem strtokLoop_eq {delim : Char → Bool} {n : ℕ} {s : Text} (h : s.length ≤ n) :
    strtokLoop delim n s = tokens delim s := by
  induction n generalizing s with
  | zero => rw [List.eq_nil_of_length_eq_zero (Nat.le_zero.mp h), tokens_nil]; rfl
  | succ n ih =>
    rw [strtokLoop]
    rcases tokens_strtok delim s with ⟨hs, hnil⟩ | ⟨t, r, hs, -, -, hlt, hcons⟩
    · rw [hs, hnil]
    · rw [hs, hcons, ← ih (by omega)]

/-- The token loop yields the tokens of the text. -/
theorem nextTokens_eq (delim : Char → Bool) (s : Text) : nextTokens delim s = tokens delim s :=
  strtokLoop_eq le_rfl

theorem isNumeric_decimal (n : ℕ) : isNumeric (decimal (n : ℤ)) = true := by
  obtain ⟨c, s, hs, hspace, hminus, hplus⟩ := decimal_cons n
  have hdigits : (decimal (n : ℤ)).all Char.isDigit = true :=
    List.all_eq_true.mpr fun _ hc => isDigit_of_mem_decimal hc
  rw [isNumeric, hs, List.dropWhile_cons_of_neg (by simp [hspace]), ← hs]
  split
  · rename_i heq
    exact absurd (List.cons.inj (hs.symm.trans heq)).1 hminus
  · rename_i heq
    exact absurd (List.cons.inj (hs.symm.trans heq)).1 hplus
  · simp [hdigits, decimal_ne_nil n]

theorem stripLine_append {c : Char} (a b : Text) (hc : c ≠ '\n' ∧ c ≠ '\r') :
    stripLine (a ++ c :: b) = a ++ c :: stripLine b := by
  unfold stripLine
  induction b using List.reverseRecOn with
  | nil => rw [List.rdropWhile_nil, List.rdropWhile_concat_neg _ _ _ (by simpa using hc)]
  | append_singleton b d ih =>
    rw [← List.cons_append, ← List.append_assoc]
    by_cases hd : d = '\n' ∨ d = '\r'
    · rw [List.rdropWhile_concat_pos _ _ _ (by simpa using hd),
        List.rdropWhile_concat_pos _ _ _ (by simpa using hd), ih]
    · rw [List.rdropWhile_concat_neg _ _ _ (by simpa using hd),
        List.rdropWhile_concat_neg _ _ _ (by simpa using hd)]
      simp

@[simp] theorem stripLine_newline (s : Text) : stripLine (s ++ ['\n']) = stripLine s :=
  List.rdropWhile_concat_pos _ _ _ rfl

theorem stripLine_eq_self_iff {s : Text} (h : '\n' ∉ s) :
    stripLine s = s ↔ s.getLast? ≠ some '\r' := by
  rw [stripLine, List.rdropWhile_eq_self_iff]
  rcases List.eq_nil_or_concat s with rfl | ⟨s, c, rfl⟩
  · simp
  · have hc : c ≠ '\n' := by
      rintro rfl
      simp at h
    simp [hc]

theorem decodeLine_lineOf {first w : Text} {ws : List Text} (h : IsWord first)
    (hfit : (lineOf (first :: w :: ws)).length < maxLineLen) :
    decodeLine (snprintf maxLineLen (lineOf (first :: w :: ws))) =
      decodeFields (first ++ ' ' :: stripLine (lineOf (w :: ws))) first
        (stripLine (lineOf (w :: ws))) := by
  rw [snprintf, List.take_of_length_le (by omega), decodeLine, lineOf_cons_cons,
    stripLine_append _ _ (by decide), strtokSpace_word h]

end ChatServer
