import ChatServer.Client.ServerLine
import ChatServer.Connection.InPlace

/-! # Framing in the client

`receiver_thread` takes the lines out of each chunk that `recv` returns on its
own, and it stops after a chunk with the line that announces the shutdown.
-/

namespace ChatServer

open Library

def readBufferSize : ℕ := 1024

/-- The receiver, with the lines that `handle_server_line` has got and what it has shown. -/
structure Receiver where
  client : ClientState := {}
  lines : List Text := []
  displays : List Display := []

namespace Receiver

def handle (r : Receiver) (line : Text) : Receiver where
  client := (handleServerLine line r.client).1
  lines := r.lines ++ [line]
  displays := r.displays ++ (handleServerLine line r.client).2

/-- The lines of one chunk, which is terminated by a NUL. -/
def receive (r : Receiver) (chunk : List Char) : Receiver :=
  (nextTokens (· = '\n') (cstr chunk)).foldl handle r

end Receiver

/-- `receiver_thread` on what the calls of `recv` return before one fails. -/
def receiverThread : List (List Char) → Receiver → Receiver
  | chunk :: chunks, r =>
    if r.client.running then receiverThread chunks (r.receive chunk) else r
  | [], r =>
    if r.client.running then
      { r with
        client := { r.client with running := false }
        displays := r.displays ++ [.system "Disconnected from server.".toList] }
    else r

/-- The lines that reach `handle_server_line`. -/
def passedLines (chunks : List (List Char)) : List Text := (receiverThread chunks {}).lines

/-- Complete lines of the server, cut into chunks by `recv`. -/
structure Reads (lines : List Text) (chunks : List (List Char)) : Prop where
  line : ∀ line ∈ lines, '\n' ∉ line ∧ '\x00' ∉ line
  chunk : ∀ chunk ∈ chunks, chunk ≠ [] ∧ chunk.length ≤ readBufferSize - 1
  stream : chunks.flatten = lines.flatMap (· ++ ['\n'])

/-- A line after which the client stops. -/
def Stops (line : Text) : Prop := decodeLine line = .err (some errServerShutdown)

/-- No cut is inside a line. -/
def WholeLines (chunks : List (List Char)) : Prop :=
  chunks.IsChain fun a b => ¬ Inside (· = '\n') a b

/-- No line comes in a chunk after one that stops the client. -/
def StopsLast (chunks : List (List Char)) : Prop :=
  chunks.Pairwise fun a b =>
    (∃ line ∈ tokens (· = '\n') a, Stops line) → tokens (· = '\n') b = []

instance (line : Text) : Decidable (Stops line) :=
  inferInstanceAs (Decidable (decodeLine line = .err (some errServerShutdown)))

variable {lines ts : List Text} {chunks : List (List Char)} {chunk : List Char} {r : Receiver}

theorem running_update (client : ClientState) (line : ServerLine) :
    (line.update client).running =
      (client.running && decide (line ≠ .err (some errServerShutdown))) := by
  cases line with
  | ok status token =>
    cases status with
    | none => simp [ServerLine.update]
    | some status => rw [ServerLine.update]; split_ifs <;> simp
  | err code =>
    cases code with
    | none => simp [ServerLine.update]
    | some code =>
      rw [ServerLine.update]
      split_ifs with hkicked hshutdown
      · have hne : code ≠ errServerShutdown := by rw [hkicked]; decide
        simp [hne]
      · simp [hshutdown]
      · simp [hshutdown]
  | notice user action room => rw [ServerLine.update]; split_ifs <;> simp
  | _ => simp [ServerLine.update]

theorem running_foldl (ts : List Text) (r : Receiver) :
    (ts.foldl Receiver.handle r).client.running =
      (r.client.running && decide (∀ line ∈ ts, ¬ Stops line)) := by
  induction ts generalizing r with
  | nil => simp
  | cons line ts ih =>
    have hline : (r.handle line).client.running = (r.client.running && decide (¬ Stops line)) :=
      running_update r.client (decodeLine line)
    rw [List.foldl_cons, ih, hline, Bool.and_assoc]
    simp

theorem lines_foldl (ts : List Text) (r : Receiver) :
    (ts.foldl Receiver.handle r).lines = r.lines ++ ts := by
  induction ts generalizing r with
  | nil => simp
  | cons line ts ih => rw [List.foldl_cons, ih]; simp [Receiver.handle]

/-- The chunks up to the first that stops the client. -/
def readChunks : List (List Char) → List (List Char)
  | [] => []
  | chunk :: chunks =>
    chunk :: if ∃ line ∈ tokens (· = '\n') chunk, Stops line then [] else readChunks chunks

theorem receive_eq (h : '\x00' ∉ chunk) :
    r.receive chunk = (tokens (· = '\n') chunk).foldl Receiver.handle r := by
  have hcstr : cstr chunk = chunk := List.takeWhile_eq_self_iff.mpr fun c hc =>
    decide_eq_true fun heq => h (heq ▸ hc)
  rw [Receiver.receive, hcstr, nextTokens_eq]

theorem lines_receiverThread (hrun : r.client.running = true)
    (h : ∀ chunk ∈ chunks, '\x00' ∉ chunk) :
    (receiverThread chunks r).lines =
      r.lines ++ (readChunks chunks).flatMap (tokens (· = '\n')) := by
  induction chunks generalizing r with
  | nil => simp [receiverThread, readChunks, hrun]
  | cons chunk chunks ih =>
    have hchunks : ∀ chunk ∈ chunks, '\x00' ∉ chunk := fun c hc => h c (List.mem_cons_of_mem _ hc)
    have hlines := lines_foldl (tokens (· = '\n') chunk) r
    have hnext := running_foldl (tokens (· = '\n') chunk) r
    rw [receiverThread, if_pos hrun, readChunks, List.flatMap_cons,
      receive_eq (h chunk List.mem_cons_self)]
    split_ifs with hstop
    · have hstopped :
          ((tokens (· = '\n') chunk).foldl Receiver.handle r).client.running = false := by
        rw [hnext]
        simpa using fun _ => hstop
      cases chunks <;> simp [receiverThread, hstopped, hlines]
    · rw [ih _ hchunks, hlines, List.append_assoc]
      rw [hnext, hrun]
      simpa using hstop

theorem readChunks_prefix (chunks : List (List Char)) : readChunks chunks <+: chunks := by
  induction chunks with
  | nil => exact List.prefix_rfl
  | cons chunk chunks ih =>
    rw [readChunks, List.prefix_cons_inj]
    split_ifs
    · exact List.nil_prefix
    · exact ih

/-- What is not read holds no lines exactly if no line comes after the client has stopped. -/
theorem stopsLast_iff {rest : List (List Char)} (h : chunks = readChunks chunks ++ rest) :
    StopsLast chunks ↔ rest.flatMap (tokens (· = '\n')) = [] := by
  induction chunks with
  | nil =>
    rw [(List.append_eq_nil_iff.mp h.symm).2]
    exact iff_of_true .nil rfl
  | cons chunk chunks ih =>
    rw [readChunks, List.cons_append, List.cons_inj_right] at h
    unfold StopsLast
    rw [List.pairwise_cons]
    split_ifs at h with hstop
    · rw [h, List.nil_append, List.flatMap_eq_nil_iff]
      constructor
      · exact fun hall chunk' hmem => hall.1 chunk' hmem hstop
      · exact fun hall => ⟨fun chunk' hmem _ => hall chunk' hmem,
          List.pairwise_of_forall_mem_list fun a _ b hb _ => hall b hb⟩
    · exact (and_iff_right fun _ _ hline => absurd hline hstop).trans (ih h)

theorem Reads.noNul (h : Reads lines chunks) : ∀ chunk ∈ chunks, '\x00' ∉ chunk := by
  intro chunk hchunk hnul
  have hmem : '\x00' ∈ chunks.flatten := List.mem_flatten.mpr ⟨chunk, hchunk, hnul⟩
  rw [h.stream, List.mem_flatMap] at hmem
  obtain ⟨line, hline, hmem⟩ := hmem
  rcases List.mem_append.mp hmem with hmem | hmem
  · exact (h.line line hline).2 hmem
  · simp at hmem

theorem Reads.tokens_stream (h : Reads lines chunks) :
    tokens (· = '\n') chunks.flatten = lines.filter fun line => !line.isEmpty := by
  rw [h.stream]
  refine tokens_lines (by simp) fun line hline c hc => decide_eq_false fun heq => ?_
  exact (h.line line hline).1 (heq ▸ hc)

/--
The lines that reach `handle_server_line` are the lines of the stream exactly
if no cut is inside a line and no line comes in a chunk after one that stops
the client.
-/
theorem passedLines_eq_iff (h : Reads lines chunks) :
    (passedLines chunks = lines.filter fun line => !line.isEmpty) ↔
      WholeLines chunks ∧ StopsLast chunks := by
  obtain ⟨rest, hrest⟩ := readChunks_prefix chunks
  have hne : ∀ chunk ∈ chunks, chunk ≠ [] := fun chunk hchunk => (h.chunk chunk hchunk).1
  have hpassed : passedLines chunks = (readChunks chunks).flatMap (tokens (· = '\n')) :=
    lines_receiverThread rfl h.noNul
  have hsplit : chunks.flatMap (tokens (· = '\n')) =
      (readChunks chunks).flatMap (tokens (· = '\n')) ++ rest.flatMap (tokens (· = '\n')) := by
    conv_lhs => rw [← hrest]
    exact List.flatMap_append
  have hflat : chunks.flatten = (readChunks chunks).flatten ++ rest.flatten := by
    conv_lhs => rw [← hrest]
    exact List.flatten_append
  rw [hpassed, ← h.tokens_stream, stopsLast_iff hrest.symm, WholeLines,
    ← flatMap_tokens_eq_iff hne, hsplit]
  constructor
  · intro heq
    have hbytes := congrArg List.flatten heq
    rw [flatten_flatMap_tokens, flatten_tokens, hflat, List.filter_append,
      List.self_eq_append_right] at hbytes
    have hnil := flatMap_tokens_eq_nil_iff.mpr hbytes
    exact ⟨by rw [hnil, List.append_nil, heq], hnil⟩
  · rintro ⟨heq, hnil⟩
    rwa [hnil, List.append_nil] at heq

/-- Three reads, one of them cut in front of a newline, and a shutdown at the end. -/
theorem passedLines_whole :
    passedLines ["OK SENT".toList, "\nMSG 1 bob hi\nPM bob ho\n".toList,
        "ERR SERVER_SHUTDOWN\n".toList] =
      ["OK SENT".toList, "MSG 1 bob hi".toList, "PM bob ho".toList,
        "ERR SERVER_SHUTDOWN".toList] := by
  have hreads : Reads ["OK SENT".toList, "MSG 1 bob hi".toList, "PM bob ho".toList,
      "ERR SERVER_SHUTDOWN".toList] ["OK SENT".toList, "\nMSG 1 bob hi\nPM bob ho\n".toList,
        "ERR SERVER_SHUTDOWN\n".toList] := ⟨by decide, by decide, by decide⟩
  refine (passedLines_eq_iff hreads).mpr ⟨by simp [WholeLines, Inside], ?_⟩
  unfold StopsLast
  decide +kernel

/-- A reply that arrives in two reads is taken for two lines. -/
theorem passedLines_cut :
    Reads ["OK SENT".toList] ["OK S".toList, "ENT\n".toList] ∧
      passedLines ["OK S".toList, "ENT\n".toList] = ["OK S".toList, "ENT".toList] ∧
      passedLines ["OK S".toList, "ENT\n".toList] ≠
        ["OK SENT".toList].filter fun line => !line.isEmpty :=
  ⟨⟨by decide, by decide, by decide⟩, by decide, by decide⟩

end ChatServer
