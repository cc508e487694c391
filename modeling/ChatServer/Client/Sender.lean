import ChatServer.Client.Receiver
import ChatServer.Connection.Framing
import ChatServer.Startup.Grammar

/-! # What the user types

The loop of the client's `main` takes the standard input in pieces and sends
each as a line. Together with `handle_client` at the other end: the server
processes what the user typed, line for line.
-/

namespace ChatServer

open Library

/-- Why the loop has ended. -/
inductive LoopEnd where
  | notRunning | endOfInput | quit | sendFailed
  deriving DecidableEq, Repr

/-- The client program: `stdin`, its own state, and the bytes that have been sent. -/
structure ChatClient where
  input : List Char
  client : ClientState
  sent : List Char
  ended : Option LoopEnd

inductive ClientEvent where
  /-- A round of the loop; `client_send` takes so many bytes at most, or fails. -/
  | round (taken : Option ℕ)
  /-- The receiver thread has got a line. -/
  | received (line : Text)
  /-- The receiver thread ends. -/
  | closed
  deriving DecidableEq, Repr

/-- Track the room for display purposes. -/
def trackRoom (input : Text) (client : ClientState) : ClientState :=
  if "CREATE ".toList <+: input then
    { client with currentRoom := strncpy maxRoomNameLen (input.drop 7) }
  else if "JOIN ".toList <+: input then
    { client with currentRoom := strncpy maxRoomNameLen (input.drop 5) }
  else client

namespace ChatClient

def start (stdin : List Char) : ChatClient where
  input := stdin
  client := {}
  sent := []
  ended := none

/-- Send the line, whatever part of it `send` takes. -/
def send (c : ChatClient) (input : Text) (taken : Option ℕ) : ChatClient :=
  let c := { c with client := trackRoom input c.client }
  match taken with
  | none => { c with ended := some .sendFailed }
  | some n => { c with sent := c.sent ++ (snprintf (readBufferSize + 2) (input ++ ['\n'])).take n }

/-- One round of the loop. -/
def round (c : ChatClient) (taken : Option ℕ) : ChatClient :=
  if c.client.running = false then { c with ended := some .notRunning }
  else match fgets readBufferSize c.input with
  | none => { c with ended := some .endOfInput }
  | some (line, rest) =>
    let input := stripLine (cstr line)
    let c := { c with input := rest }
    if input = [] then c
    else if input = "/quit".toList then { c with ended := some .quit }
    else if input = "/help".toList then c
    else c.send input taken

def step (c : ChatClient) : ClientEvent → ChatClient
  | .round taken => if c.ended = none then c.round taken else c
  | .received line => { c with client := (handleServerLine line c.client).1 }
  | .closed => { c with client := { c.client with running := false } }

end ChatClient

/-- The commands among the lines of the input. -/
def commands : List (List Char) → List Text
  | [] => []
  | line :: lines =>
    let input := stripLine (cstr line)
    if input = [] then commands lines
    else if input = "/quit".toList then []
    else if input = "/help".toList then commands lines
    else input :: commands lines

/-- The lines of the input, the last one with or without its newline. -/
def typedLines (stdin : List Char) : List (List Char) :=
  terminated '\n' stdin ++ if unterminated '\n' stdin = [] then [] else [unterminated '\n' stdin]

/-- The pieces in which the loop takes the input. -/
def typedPieces (stdin : List Char) : List (List Char) :=
  pieces '\n' (readBufferSize - 1) stdin.length stdin

/-- Lines as they are sent. -/
def wire (lines : List Text) : List Char := lines.flatMap (· ++ ['\n'])

variable {stdin line : List Char} {lines : List Text} {c : ChatClient} {input : Text}

theorem stripLine_cstr_newline (line : List Char) :
    stripLine (cstr (line ++ ['\n'])) = stripLine (cstr line) := by
  unfold cstr
  rw [List.takeWhile_append]
  split_ifs with h
  · rw [(List.takeWhile_sublist _).eq_of_length h]
    exact stripLine_newline line
  · rfl

theorem commands_congr {ls ls' : List (List Char)}
    (h : ls.map (fun l => stripLine (cstr l)) = ls'.map fun l => stripLine (cstr l)) :
    commands ls = commands ls' := by
  induction ls generalizing ls' with
  | nil => rw [List.map_eq_nil_iff.mp h.symm]
  | cons l ls ih =>
    cases ls' with
    | nil => cases h
    | cons l' ls' =>
      obtain ⟨hl, hls⟩ := List.cons.inj h
      simp only [commands, hl, ih hls]

theorem commands_pieces (hlines : ∀ line ∈ terminated '\n' stdin, line.length < readBufferSize - 1)
    (hrest : (unterminated '\n' stdin).length ≤ readBufferSize - 1) :
    commands (typedPieces stdin) = commands (typedLines stdin) := by
  apply commands_congr
  rw [typedPieces, pieces_eq_lines le_rfl hlines hrest, typedLines, List.map_append,
    List.map_append, List.map_map]
  congr 1
  exact List.map_congr_left fun line _ => stripLine_cstr_newline line

/-- A line that is sent: not empty, without a newline or a NUL in it or a CR at its end. -/
structure IsCommand (input : Text) : Prop where
  newline : '\n' ∉ input
  nul : '\x00' ∉ input
  cr : input.getLast? ≠ some '\r'
  fits : input.length ≤ readBufferSize - 1

theorem isCommand_piece (stream : List Char) :
    IsCommand (stripLine (cstr (readPiece '\n' (readBufferSize - 1) stream).1)) := by
  obtain ⟨a, ha, hlen, hcases⟩ := @readPiece_cases Char _ '\n' (readBufferSize - 1) stream
  have hstrip : stripLine (cstr (readPiece '\n' (readBufferSize - 1) stream).1) =
      stripLine (cstr a) := by
    rcases hcases with heq | heq
    · rw [heq]
    · rw [heq, stripLine_cstr_newline]
  have hstripped : stripLine (cstr a) <+: cstr a := List.rdropWhile_prefix _ _
  have hsub : stripLine (cstr a) <+: a := hstripped.trans (List.takeWhile_prefix _)
  have hnewline : '\n' ∉ stripLine (cstr a) := fun h => ha (hsub.subset h)
  rw [hstrip]
  refine ⟨hnewline, fun h => null_not_mem_cstr a (hstripped.subset h), ?_,
    hsub.length_le.trans hlen⟩
  rw [← stripLine_eq_self_iff hnewline]
  exact List.rdropWhile_idempotent _ _

theorem IsCommand.lineText (h : IsCommand input) : lineText input = input := by
  rw [ChatServer.lineText, if_neg h.cr]
  exact List.takeWhile_eq_self_iff.mpr fun d hd => decide_eq_true fun heq => h.nul (heq ▸ hd)

theorem terminated_wire (h : ∀ line ∈ lines, '\n' ∉ line) :
    terminated '\n' (wire lines) = lines := by
  induction lines with
  | nil => exact terminated_of_not_mem List.not_mem_nil
  | cons line lines ih =>
    obtain ⟨hline, hrest⟩ := List.forall_mem_cons.mp h
    have hwire : wire (line :: lines) = line ++ '\n' :: wire lines := by simp [wire]
    rw [hwire, terminated_line hline, ih hrest]

/-- The commands sent so far, of those in the input. -/
structure SentSoFar (stdin : List Char) (c : ChatClient) (cs : List Text) : Prop where
  sent : c.sent = wire cs
  lines : ∀ input ∈ cs, IsCommand input
  part : cs <+: commands (typedPieces stdin)
  unread : c.ended = none → commands (typedPieces stdin) = cs ++ commands (typedPieces c.input)
  whole : c.ended = some .quit ∨ c.ended = some .endOfInput → commands (typedPieces stdin) = cs

theorem typedPieces_cons (x : Char) (l : List Char) :
    typedPieces (x :: l) = (readPiece '\n' (readBufferSize - 1) (x :: l)).1 ::
      typedPieces (readPiece '\n' (readBufferSize - 1) (x :: l)).2 := by
  have hshort := @readPiece_shorter Char _ '\n' (readBufferSize - 2) x l
  rw [typedPieces, List.length_cons, pieces]
  exact congrArg _ (pieces_fuel hshort)

theorem send_sent (h : IsCommand input) {n : ℕ} (hn : readBufferSize ≤ n) :
    (c.send input (some n)).sent = c.sent ++ (input ++ ['\n']) := by
  have hlen : (input ++ ['\n']).length ≤ readBufferSize := by
    have hfits := h.fits
    rw [List.length_append, List.length_singleton]
    simp only [readBufferSize] at hfits ⊢
    omega
  have hsnprintf : snprintf (readBufferSize + 2) (input ++ ['\n']) = input ++ ['\n'] :=
    List.take_of_length_le (by omega)
  simp only [ChatClient.send, hsnprintf, List.take_of_length_le (hlen.trans hn)]

theorem SentSoFar.round {cs : List Text} (h : SentSoFar stdin c cs) (hc : c.ended = none)
    {taken : Option ℕ} (hwhole : ∀ n, taken = some n → readBufferSize ≤ n) :
    ∃ cs', SentSoFar stdin (c.round taken) cs' := by
  have hunread := h.unread hc
  unfold ChatClient.round
  split_ifs with hrunning
  · exact ⟨cs, h.sent, h.lines, h.part, nofun, by simp⟩
  cases hinput : c.input with
  | nil =>
    rw [hinput] at hunread
    have hall : commands (typedPieces stdin) = cs := hunread.trans (List.append_nil cs)
    exact ⟨cs, h.sent, h.lines, h.part, nofun, fun _ => hall⟩
  | cons x l =>
    have hfgets : fgets readBufferSize (x :: l) =
        some (readPiece '\n' (readBufferSize - 1) (x :: l)) := if_neg (List.cons_ne_nil x l)
    have hcommand := isCommand_piece (x :: l)
    rw [hinput, typedPieces_cons, commands] at hunread
    rw [hfgets]
    generalize readPiece '\n' (readBufferSize - 1) (x :: l) = piece at hcommand hunread
    obtain ⟨line, rest⟩ := piece
    dsimp only at hcommand hunread ⊢
    generalize stripLine (cstr line) = input at hcommand hunread
    split_ifs at hunread ⊢ with hempty hquit hhelp
    · exact ⟨cs, h.sent, h.lines, h.part, fun _ => hunread, h.whole⟩
    · have hall := hunread.trans (List.append_nil cs)
      exact ⟨cs, h.sent, h.lines, h.part, nofun, fun _ => hall⟩
    · exact ⟨cs, h.sent, h.lines, h.part, fun _ => hunread, h.whole⟩
    · cases taken with
      | none => exact ⟨cs, h.sent, h.lines, h.part, nofun, by simp [ChatClient.send]⟩
      | some n =>
        have hsplit : commands (typedPieces stdin) =
            (cs ++ [input]) ++ commands (typedPieces rest) := by
          rw [hunread, List.append_assoc, List.singleton_append]
        refine ⟨cs ++ [input], ?_, ?_, ⟨_, hsplit.symm⟩, fun _ => hsplit, fun hend => ?_⟩
        · rw [send_sent hcommand (hwhole n rfl), h.sent]
          simp [wire]
        · exact List.forall_mem_append.mpr ⟨h.lines, by simpa using hcommand⟩
        · simp [ChatClient.send, hc] at hend

/-- `send` on a blocking socket takes the whole line, or fails. -/
def SendsWhole (events : List ClientEvent) : Prop :=
  ∀ n, .round (some n) ∈ events → readBufferSize ≤ n

theorem sentSoFar_run {events : List ClientEvent} (hwhole : SendsWhole events) :
    ∃ cs, SentSoFar stdin (run ChatClient.step (ChatClient.start stdin) events) cs := by
  induction events using List.reverseRecOn with
  | nil => exact ⟨[], rfl, by simp, List.nil_prefix, fun _ => rfl, by simp [ChatClient.start]⟩
  | append_singleton events e ih =>
    obtain ⟨cs, h⟩ := ih fun n hn => hwhole n (List.mem_append_left _ hn)
    rw [run_concat]
    generalize run ChatClient.step (ChatClient.start stdin) events = c at h
    cases e with
    | round taken =>
      rw [ChatClient.step]
      split_ifs with hc
      · refine h.round hc fun n hn => hwhole n ?_
        simp [hn]
      · exact ⟨cs, h⟩
    | received line => exact ⟨cs, h.sent, h.lines, h.part, h.unread, h.whole⟩
    | closed => exact ⟨cs, h.sent, h.lines, h.part, h.unread, h.whole⟩

/-- The server's side of a connection whose peer is a client. -/
theorem lines_sent {cs : List Text} (h : SentSoFar stdin c cs) {s : ConnState} (hs : s.Framed)
    (hreceived : s.received <+: c.sent) :
    s.lines <+: cs ∧ (s.received = c.sent → s.lines = cs) := by
  have hall : (terminated '\n' c.sent).map lineText = cs := by
    rw [h.sent, terminated_wire fun input hin => (h.lines input hin).newline]
    conv_rhs => rw [← List.map_id cs]
    exact List.map_congr_left fun input hin => (h.lines input hin).lineText
  constructor
  · obtain ⟨rest, hrest⟩ := hreceived
    rw [hs.lines, ← hall, ← hrest, terminated_append, List.map_append]
    exact List.prefix_append _ _
  · intro heq
    rw [hs.lines, heq, hall]

/--
What the user types is what the server processes: as long as the connection is
open, the lines passed to `process_line` are the first ones of the commands in
the input of the client, however the bytes travel; and they are all of them
once the client has come to the end of its input and its bytes have arrived.
-/
theorem typed_processed
    (hlines : ∀ line ∈ terminated '\n' stdin, line.length < readBufferSize - 1)
    (hrest : (unterminated '\n' stdin).length ≤ readBufferSize - 1) {events : List ClientEvent}
    (hwhole : SendsWhole events) {inputs : List ConnEvent}
    (hopen : (run ConnState.step .create inputs).gone = false)
    (hreceived : (run ConnState.step .create inputs).received <+:
      (run ChatClient.step (.start stdin) events).sent) :
    let s := run ConnState.step .create inputs
    let c := run ChatClient.step (.start stdin) events
    s.lines <+: commands (typedLines stdin) ∧
      (c.ended = some .quit ∨ c.ended = some .endOfInput → s.received = c.sent →
        s.lines = commands (typedLines stdin)) := by
  intro s c
  obtain ⟨cs, h⟩ : ∃ cs, SentSoFar stdin c cs := sentSoFar_run hwhole
  obtain ⟨hpart, hall⟩ := lines_sent h (ConnState.run_framed inputs hopen) hreceived
  rw [← commands_pieces hlines hrest]
  exact ⟨hpart.trans h.part, fun hend heq => (hall heq).trans (h.whole hend).symm⟩

/-- Two lines, the second without a newline, arrive in two reads. -/
theorem typed_processed_two :
    let s := run ConnState.step .create [.arrive "LOGIN a b\nJO".toList false,
      .call [⟨[], false, some 20⟩], .arrive "IN r\n".toList false, .call [⟨[], false, some 20⟩]]
    let c := run ChatClient.step (.start "LOGIN a b\n/help\nJOIN r".toList)
      [.round (some 2000), .round (some 2000), .round (some 2000), .round (some 2000)]
    s.lines <+: commands (typedLines "LOGIN a b\n/help\nJOIN r".toList) ∧
      (c.ended = some .quit ∨ c.ended = some .endOfInput → s.received = c.sent →
        s.lines = commands (typedLines "LOGIN a b\n/help\nJOIN r".toList)) :=
  typed_processed (by decide) (by decide) (by simp [SendsWhole, readBufferSize]) (by decide +kernel)
    (by decide +kernel)

end ChatServer
