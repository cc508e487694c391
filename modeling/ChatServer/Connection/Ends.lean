import ChatServer.Connection.Framing

/-! # Disconnects and full buffers

A call that sees the end of the stream passes no line on, so it loses the lines
that were not received before it. A call that ends with a full buffer and no
newline in it leaves the connection where no later call reads anything.
-/

namespace ChatServer

open Library

namespace ConnState

variable {s : ConnState} {attempts : List Attempt}

/-- What the peer has sent so far, as far as it has arrived. -/
def stream (s : ConnState) : List Char := s.received ++ s.pending

/-- A call that disconnects has passed on every terminated line of the stream. -/
def LinesPassed (s : ConnState) : ConnEvent → Prop
  | .call attempts => s.gone = false → (s.handleClient attempts).gone = true →
      (s.handleClient attempts).lines =
        (terminated '\n' (s.handleClient attempts).stream).map lineText
  | _ => True

/--
A call that starts on a closing connection, or whose read loop sees the end of
the stream, finds no newline in what was not received before it.
-/
def NoLineLeft (s : ConnState) : ConnEvent → Prop
  | .call attempts => s.gone = false →
      (s.closing = true → '\n' ∉ s.pending) ∧
      (s.closing = false → (s.readLoop attempts).2 = true →
        '\n' ∉ (s.readLoop attempts).1.stream.drop s.received.length)
  | _ => True

theorem lines_eq_iff {a b : List Char} :
    (terminated '\n' a).map lineText = (terminated '\n' (a ++ b)).map lineText ↔ '\n' ∉ b := by
  rw [← terminated_append_eq_iff (a := a) (b := b)]
  constructor
  · intro h
    rw [terminated_append, List.map_append, eq_comm, List.append_right_eq_self,
      List.map_eq_nil_iff] at h
    rw [terminated_append, h, List.append_nil]
  · intro h
    rw [h]

theorem linesPassed_iff (h : s.gone = false → s.Framed) (e : ConnEvent) :
    s.LinesPassed e ↔ s.NoLineLeft e := by
  cases e with
  | arrive bytes closes => rfl
  | hangup => rfl
  | call attempts =>
    refine forall_congr' fun hgone => ?_
    have hframed := h hgone
    rcases s.handleClient_cases attempts with ⟨hc, heq⟩ | ⟨hc, hend, heq⟩ | ⟨hc, hend, heq⟩
    · rw [heq, disconnect]
      simp only [hc, stream, hframed.lines, lines_eq_iff]
      simp
    · obtain ⟨bytes, hread⟩ := readLoop_received hframed.sized attempts
      rw [heq, disconnect]
      simp only [hc, hend, stream, hread.lines, hframed.lines, hread.received, List.append_assoc,
        lines_eq_iff, List.drop_left]
      simp
    · obtain ⟨bytes, hread⟩ := readLoop_received hframed.sized attempts
      obtain ⟨-, -, -, -, hopen⟩ := processLines_spec hread.sized (Nat.le_refl _)
      rw [heq, hopen, hread.gone, hgone]
      simp only [hc, hend]
      simp

/--
Every disconnect of a run has passed on all the terminated lines exactly when
no newline is left for the call that disconnects.
-/
theorem lines_passed_iff (inputs : List ConnEvent) :
    Along step LinesPassed create inputs ↔ Along step NoLineLeft create inputs :=
  along_congr (I := fun s : ConnState => s.gone = false → s.Framed)
    (fun _ e h _ => framed_step h e) (fun _ e h => linesPassed_iff h e) (fun _ => framed_create)

/-- A command and the close of the peer arrive together. -/
theorem line_lost :
    ¬ ∀ inputs : List ConnEvent, Along step LinesPassed create inputs := by
  intro h
  have hcall := (h [.arrive "MSG hi\n".toList true,
    .call [⟨[], false, some 4095⟩, ⟨[], false, some 4095⟩]]).2.1
  exact absurd (hcall rfl (by decide +kernel)) (by decide +kernel)

/-- A call that leaves the connection open leaves room for the next call to read. -/
def RoomLeft (s : ConnState) : ConnEvent → Prop
  | .call attempts => s.gone = false → (s.handleClient attempts).gone = false →
      (s.handleClient attempts).bufLen < connBufSize - 1
  | _ => True

/--
After the read loop of a call that goes on to the lines, every line of the bytes
received, the unterminated one included, is shorter than the buffer.
-/
def ShortLines (s : ConnState) : ConnEvent → Prop
  | .call attempts => s.gone = false → s.closing = false → (s.readLoop attempts).2 = false →
      ∀ line ∈ terminated '\n' (s.readLoop attempts).1.received ++
        [unterminated '\n' (s.readLoop attempts).1.received], line.length < connBufSize - 1
  | _ => True

/-- Every line that was processed fitted the buffer together with its newline. -/
structure Fitted (s : ConnState) : Prop extends s.Framed where
  fit : ∀ line ∈ terminated '\n' s.received, line.length < connBufSize - 1

/-- What a read loop has received completes no longer line than its buffer holds. -/
theorem Fitted.received (h : s.Fitted) {s' : ConnState} {bytes : List Char}
    (hread : Received s s' bytes) :
    ∀ line ∈ terminated '\n' s'.received, line.length < connBufSize - 1 := by
  intro line hline
  rw [hread.received, terminated_append, ← h.data, ← hread.data] at hline
  rcases List.mem_append.mp hline with hline | hline
  · exact h.fit line hline
  · have hlt := length_lt_of_terminated hline
    have hlen := hread.sized.length_data
    have hfits := hread.sized.fits
    omega

theorem fitted_step (h : s.gone = false → s.Fitted) (e : ConnEvent) :
    (s.step e).gone = false → (s.step e).Fitted := by
  intro hopen
  refine ⟨framed_step (fun hgone => (h hgone).toFramed) e hopen, ?_⟩
  unfold step at hopen ⊢
  split_ifs at hopen ⊢ with hgone
  · rw [hgone] at hopen
    cases hopen
  · have hfitted := h (by simpa using hgone)
    cases e with
    | arrive bytes closes =>
      exact hfitted.received (received_arrive hfitted.sized bytes closes)
    | hangup => exact hfitted.fit
    | call attempts =>
      rcases s.handleClient_cases attempts with ⟨-, heq⟩ | ⟨-, -, heq⟩ | ⟨-, -, heq⟩
      · simp only [heq] at hopen
        cases hopen
      · simp only [heq] at hopen
        cases hopen
      · obtain ⟨bytes, hread⟩ := readLoop_received hfitted.sized attempts
        obtain ⟨-, -, -, hrec, -⟩ := processLines_spec hread.sized (Nat.le_refl _)
        simp only [heq, hrec]
        exact hfitted.received hread

theorem roomLeft_iff (h : s.gone = false → s.Fitted) (e : ConnEvent) :
    s.RoomLeft e ↔ s.ShortLines e := by
  cases e with
  | arrive bytes closes => rfl
  | hangup => rfl
  | call attempts =>
    refine forall_congr' fun hgone => ?_
    have hfitted := h hgone
    rcases s.handleClient_cases attempts with ⟨hc, heq⟩ | ⟨hc, hend, heq⟩ | ⟨hc, hend, heq⟩
    · simp [heq, hc, disconnect]
    · simp [heq, hend, disconnect]
    · obtain ⟨bytes, hread⟩ := readLoop_received hfitted.sized attempts
      obtain ⟨hsized, hdata, -, -, hopen⟩ := processLines_spec hread.sized (Nat.le_refl _)
      have hrest : unterminated '\n' (s.readLoop attempts).1.received =
          (s.handleClient attempts).data := by
        rw [heq, hdata, hread.received, unterminated_append, ← hfitted.data, ← hread.data]
      have hlen : (s.handleClient attempts).data.length = (s.handleClient attempts).bufLen := by
        rw [heq]
        exact hsized.length_data
      have hopen' : (s.handleClient attempts).gone = false := by
        rw [heq, hopen, hread.gone, hgone]
      constructor
      · intro hroom _ _ line hline
        rcases List.mem_append.mp hline with hline | hline
        · exact hfitted.received hread line hline
        · rw [List.mem_singleton.mp hline, hrest, hlen]
          exact hroom hopen'
      · intro hshort _
        rw [← hlen, ← hrest]
        exact hshort hc hend _ (List.mem_append_right _ List.mem_cons_self)

/--
Every call of a run leaves room for the next one exactly when no line of the
bytes received fills the buffer, and the lines processed of an open connection
are the lines of the bytes received in any case.
-/
theorem room_left_iff (inputs : List ConnEvent) :
    let s := run step create inputs
    (Along step RoomLeft create inputs ↔ Along step ShortLines create inputs) ∧
      (s.gone = false → s.lines = (terminated '\n' s.received).map lineText ∧
        s.buf.take s.bufLen = unterminated '\n' s.received) := by
  have hcreate : create.Fitted := ⟨framed_create, fun line hline => by cases hline⟩
  refine ⟨along_congr (I := fun s : ConnState => s.gone = false → s.Fitted)
    (fun _ e h _ => fitted_step h e) (fun _ e h => roomLeft_iff h e) (fun _ => hcreate),
    fun hopen => ?_⟩
  have hframed := run_framed inputs hopen
  exact ⟨hframed.lines, hframed.data⟩

theorem handleClient_full (h : s.Framed) (hfull : s.bufLen = connBufSize - 1)
    (hopen : s.closing = false) : s.handleClient attempts = s := by
  have hread : s.readLoop attempts = (s, false) := by
    cases attempts with
    | nil => rfl
    | cons a attempts => rw [readLoop, if_neg (by omega)]
  have hnone : s.newline = none := by
    rw [newline, h.data]
    exact findIdx_newline (not_mem_unterminated _)
  have hlines : ∀ fuel, processLines fuel s = s := by
    intro fuel
    cases fuel with
    | zero => rfl
    | succ fuel => simp only [processLines, hnone]
  simp [handleClient, hopen, hread, hlines]

/-- A line that fills the buffer. -/
theorem room_gone : ¬ ∀ inputs : List ConnEvent, Along step RoomLeft create inputs := by
  intro h
  have hcall := (h [.arrive (List.replicate 4095 'a') false, .call [⟨[], false, some 4095⟩]]).2.1
  exact absurd (hcall rfl (by decide +kernel)) (by decide +kernel)

end ConnState

end ChatServer
