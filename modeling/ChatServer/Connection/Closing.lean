import ChatServer.Connection.Framing

/-! # Closing lines

`process_line` returns 1 for a line after which the connection should be closed.
`handle_client` calls it for every complete line of the buffer and drops what it
returns; between two lines, other workers may handle other connections.
-/

namespace ChatServer

open Library

/-- What comes before a line is processed: the events other workers handle, and its environment. -/
structure Turn where
  others : List (Env × Event)
  env : Env

/-- A connection, the server it belongs to, and what `process_line` has returned so far. -/
structure Served where
  conn : ConnState
  world : World
  results : List Bool

inductive ServedEvent where
  | conn (e : ConnEvent) (turns : ℕ → Turn)
  | others (events : List (Env × Event))

/-- What `process_line` returns for a line of the connection at a descriptor. -/
def lineResult (env : Env) (fd : Fd) (line : Text) (w : World) : Bool :=
  match w.conns.get fd with
  | none => false
  | some conn => (processLine env conn line w).2

/-- One call of `process_line`, after what other workers do; lines are numbered from zero. -/
def answerLine (fd : Fd) (turns : ℕ → Turn) (s : World × List Bool) (line : Text) :
    World × List Bool :=
  let turn := turns s.2.length
  let w := run step s.1 turn.others
  (step w (turn.env, .line fd line), s.2 ++ [lineResult turn.env fd line w])

namespace Served

variable (fd : Fd) (turns : ℕ → Turn)

/-- The line of a given length at the front of the buffer, as it is passed to `process_line`. -/
def lineAt (conn : ConnState) (lineLen : ℕ) : Text :=
  let buf := conn.buf.set lineLen '\x00'
  cstr (if 0 < lineLen ∧ buf[lineLen - 1]? = some '\r' then buf.set (lineLen - 1) '\x00' else buf)

/-- The loop of `handle_client` over the complete lines. -/
def serveLines : ℕ → Served → Served
  | 0, s => s
  | fuel + 1, s =>
    match s.conn.newline with
    | none => s
    | some lineLen =>
      let (world, results) := answerLine fd turns (s.world, s.results) (lineAt s.conn lineLen)
      serveLines fuel ⟨s.conn.processOne lineLen, world, results⟩

/-- `handle_client`, on the connection and the server. -/
def handleClient (s : Served) (attempts : List Attempt) : Served :=
  let (conn, disconnected) :=
    if s.conn.closing then (s.conn, true) else s.conn.readLoop attempts
  if disconnected then
    let turn := turns s.results.length
    { s with
      conn := conn.disconnect
      world := ChatServer.step (run ChatServer.step s.world turn.others)
        (turn.env, .disconnect fd) }
  else serveLines fd turns conn.bufLen { s with conn }

/-- One event; a connection that is gone has no step of its own. -/
def step (s : Served) (e : ServedEvent) : Served :=
  match e with
  | .others events => { s with world := run ChatServer.step s.world events }
  | .conn e turns =>
    if s.conn.gone then s
    else match e with
    | .arrive bytes closes => { s with conn := s.conn.arrive bytes closes }
    | .hangup => { s with conn := { s.conn with closing := true } }
    | .call attempts => handleClient fd turns s attempts

/-- Accepted just now. -/
def create (w : World) : Served := ⟨.create, w, []⟩

/-- Nothing is processed after a line for which `process_line` returned 1, and the call closes. -/
def Ended (s : Served) : Prop :=
  ∀ pre post, s.results = pre ++ true :: post → post = [] ∧ s.conn.gone = true

end Served

/-- A line logs out the client of the connection at a descriptor. -/
def ClosingLine (fd : Fd) (w : World) (line : Text) : Prop :=
  ∃ conn me, w.conns.get fd = some conn ∧ conn.me = some me ∧
    ((parseLine line).type = .logout ∨ (parseLine line).type = .logoutAll)

/-- None of the lines logs out the client of the connection when its turn comes. -/
def KeepOpen (fd : Fd) (turns : ℕ → Turn) (s : World × List Bool) (lines : List Text) : Prop :=
  Along (answerLine fd turns)
    (fun s line => ¬ ClosingLine fd (run step s.1 (turns s.2.length).others) line) s lines

namespace Served

/-- The complete lines that a call finds in the buffer do not log out the client. -/
def NoClosingLine (fd : Fd) (s : Served) : ServedEvent → Prop
  | .conn (.call attempts) turns =>
    s.conn.gone = false → s.conn.closing = false → (s.conn.readLoop attempts).2 = false →
      KeepOpen fd turns (s.world, s.results)
        ((terminated '\n' (s.conn.readLoop attempts).1.data).map lineText)
  | _ => True

end Served

variable {fd : Fd} {turns : ℕ → Turn} {env : Env} {w : World} {line : Text} {s : Served}
  {attempts : List Attempt}

theorem lineResult_iff : lineResult env fd line w = true ↔ ClosingLine fd w line := by
  unfold lineResult ClosingLine
  cases w.conns.get fd with
  | none => simp
  | some conn =>
    by_cases htype : (parseLine line).type = .logout ∨ (parseLine line).type = .logoutAll
    · have hvalid : (parseLine line).type ≠ .invalid := by
        rcases htype with htype | htype <;> rw [htype] <;> decide
      cases hme : conn.me <;> simp [processLine, hvalid, hme, htype]
    · have hnone (c : Conn) (me : ClientPtr) : ¬ (some conn = some c ∧ c.me = some me ∧
          ((parseLine line).type = .logout ∨ (parseLine line).type = .logoutAll)) :=
        fun h => htype h.2.2
      simp only [hnone, exists_false, iff_false, processLine]
      split_ifs
      · simp
      · simp
      · cases conn.me <;> simp [htype]

theorem run_answerLine (fd : Fd) (turns : ℕ → Turn) (s : World × List Bool) (lines : List Text) :
    ∃ new, (run (answerLine fd turns) s lines).2 = s.2 ++ new ∧
      (true ∉ new ↔ KeepOpen fd turns s lines) := by
  induction lines generalizing s with
  | nil => exact ⟨[], (List.append_nil _).symm, iff_of_true List.not_mem_nil trivial⟩
  | cons line lines ih =>
    obtain ⟨new, hnew, hiff⟩ := ih (answerLine fd turns s line)
    refine ⟨_ :: new, hnew.trans (List.append_assoc _ _ _), ?_⟩
    rw [List.mem_cons, not_or, hiff, eq_comm, lineResult_iff]
    rfl

namespace Served

/-- The loop does to the connection what it does without the server. -/
theorem serveLines_conn (fuel : ℕ) (s : Served) :
    (serveLines fd turns fuel s).conn = s.conn.processLines fuel := by
  induction fuel generalizing s with
  | zero => rfl
  | succ fuel ih =>
    unfold serveLines ConnState.processLines
    cases s.conn.newline with
    | none => rfl
    | some lineLen => exact ih _

theorem serveLines_answers (fd : Fd) (turns : ℕ → Turn) (s : Served) (h : s.conn.WellSized)
    {fuel : ℕ} (hfuel : s.conn.bufLen ≤ fuel) :
    ((serveLines fd turns fuel s).world, (serveLines fd turns fuel s).results) =
      run (answerLine fd turns) (s.world, s.results)
        ((terminated '\n' s.conn.data).map lineText) := by
  induction fuel generalizing s with
  | zero =>
    have hnil : s.conn.data = [] := List.eq_nil_of_length_eq_zero (by rw [h.length_data]; omega)
    rw [terminated_of_not_mem (by simp [hnil])]
    rfl
  | succ fuel ih =>
    unfold serveLines
    rcases s.conn.newline_cases with ⟨hnone, hmem⟩ | ⟨l, r, hdata, hl, hsome⟩
    · rw [hnone, terminated_of_not_mem hmem]
      rfl
    · obtain ⟨hsized, hdata', hlines, hshort⟩ := ConnState.processOne_spec h hdata
      have hline : lineAt s.conn l.length = lineText l := by
        have happend : s.conn.lines ++ [lineAt s.conn l.length] = s.conn.lines ++ [lineText l] :=
          hlines
        simpa using happend
      rw [hsome, hdata, terminated_line hl, ← hdata']
      simp only [hline]
      exact ih _ hsized (show (s.conn.processOne l.length).bufLen ≤ fuel by omega)

/-- A call disconnects, with nothing processed, or serves the lines it has read. -/
theorem handleClient_cases (fd : Fd) (turns : ℕ → Turn) (s : Served) (attempts : List Attempt) :
    (¬ (s.conn.closing = false ∧ (s.conn.readLoop attempts).2 = false) ∧
      (handleClient fd turns s attempts).results = s.results) ∨
    (s.conn.closing = false ∧ (s.conn.readLoop attempts).2 = false ∧
      handleClient fd turns s attempts = serveLines fd turns
        (s.conn.readLoop attempts).1.bufLen { s with conn := (s.conn.readLoop attempts).1 }) := by
  cases hclosing : s.conn.closing with
  | true => exact .inl ⟨by simp, by simp [handleClient, hclosing]⟩
  | false =>
    cases hread : (s.conn.readLoop attempts).2 with
    | true => exact .inl ⟨by simp, by simp [handleClient, hclosing, hread]⟩
    | false => exact .inr ⟨rfl, rfl, by simp [handleClient, hclosing, hread]⟩

theorem handleClient_conn (s : Served) :
    (handleClient fd turns s attempts).conn = s.conn.handleClient attempts := by
  unfold handleClient ConnState.handleClient
  cases s.conn.closing with
  | true => rfl
  | false =>
    cases hread : (s.conn.readLoop attempts).2 with
    | true => simp [hread]
    | false => simp [hread, serveLines_conn]

theorem step_conn (s : Served) (e : ConnEvent) :
    (step fd s (.conn e turns)).conn = s.conn.step e := by
  cases hgone : s.conn.gone with
  | true => simp [step, ConnState.step, hgone]
  | false =>
    cases e with
    | arrive bytes closes => simp [step, ConnState.step, hgone]
    | hangup => simp [step, ConnState.step, hgone]
    | call attempts => simp [step, ConnState.step, hgone, handleClient_conn]

theorem framed_step (h : s.conn.gone = false → s.conn.Framed) (e : ServedEvent) :
    (step fd s e).conn.gone = false → (step fd s e).conn.Framed := by
  cases e with
  | others events => exact h
  | conn e turns =>
    rw [step_conn]
    exact ConnState.framed_step h e

theorem ended_of_not_mem (h : true ∉ s.results) : s.Ended := fun _ _ heq =>
  absurd (heq ▸ List.mem_append_right _ List.mem_cons_self) h

/-- As long as the connection is open, nothing it sent may have closed it. -/
theorem ended_iff_of_open (hopen : s.conn.gone = false) : s.Ended ↔ true ∉ s.results := by
  refine ⟨fun h hmem => ?_, ended_of_not_mem⟩
  obtain ⟨pre, post, heq⟩ := List.append_of_mem hmem
  rw [(h pre post heq).2] at hopen
  cases hopen

theorem ended_step_iff (hframed : s.conn.gone = false → s.conn.Framed) (h : s.Ended)
    (e : ServedEvent) : (step fd s e).Ended ↔ NoClosingLine fd s e := by
  cases e with
  | others events => exact iff_of_true h trivial
  | conn e turns =>
    cases hgone : s.conn.gone with
    | true =>
      have hstep : step fd s (.conn e turns) = s := by simp [step, hgone]
      rw [hstep]
      refine iff_of_true h ?_
      cases e with
      | call attempts => exact fun hopen => absurd hgone (by simp [hopen])
      | _ => trivial
    | false =>
      have hnone := (ended_iff_of_open hgone).mp h
      cases e with
      | arrive bytes closes =>
        have hresults : (step fd s (.conn (.arrive bytes closes) turns)).results = s.results := by
          simp [step, hgone]
        exact iff_of_true (ended_of_not_mem (hresults ▸ hnone)) trivial
      | hangup =>
        have hresults : (step fd s (.conn .hangup turns)).results = s.results := by
          simp [step, hgone]
        exact iff_of_true (ended_of_not_mem (hresults ▸ hnone)) trivial
      | call attempts =>
        have hstep : step fd s (.conn (.call attempts) turns) =
            handleClient fd turns s attempts := by simp [step, hgone]
        rw [hstep]
        rcases handleClient_cases fd turns s attempts with ⟨hend, hresults⟩ | ⟨hc, hr, heq⟩
        · exact iff_of_true (ended_of_not_mem (hresults ▸ hnone))
            fun _ hc hr => absurd ⟨hc, hr⟩ hend
        · obtain ⟨bytes, hread⟩ := ConnState.readLoop_received (hframed hgone).sized attempts
          obtain ⟨new, hnew, hiff⟩ := run_answerLine fd turns (s.world, s.results)
            ((terminated '\n' (s.conn.readLoop attempts).1.data).map lineText)
          have hresults : (handleClient fd turns s attempts).results = s.results ++ new := by
            have hserved := serveLines_answers fd turns
              ⟨(s.conn.readLoop attempts).1, s.world, s.results⟩ hread.sized (Nat.le_refl _)
            rw [heq, ← hnew, ← hserved]
          have hopen : (handleClient fd turns s attempts).conn.gone = false := by
            rw [heq, serveLines_conn]
            exact (ConnState.processLines_spec hread.sized (Nat.le_refl _)).2.2.2.2.trans
              (hread.gone.trans hgone)
          rw [ended_iff_of_open hopen, hresults, List.mem_append, not_or, hiff]
          simp [NoClosingLine, hgone, hc, hr, hnone]

/--
In every state of a run, nothing has been processed after a line for which
`process_line` returned 1, and the connection is closed then, exactly if no line
logs out the client.
-/
theorem closing_line_ends_iff (fd : Fd) (w : World) (inputs : List ServedEvent) :
    (∀ pre, pre <+: inputs → (run (step fd) (create w) pre).Ended) ↔
      Along (step fd) (NoClosingLine fd) (create w) inputs := by
  refine (along_iff_prefixes (J := fun s : Served => s.conn.gone = false → s.conn.Framed)
    (fun s e h => framed_step h e) (fun s e hf h hc => (ended_step_iff hf h e).mpr hc)
    (fun s e hf h hc => mt (ended_step_iff hf h e).mp hc) (fun _ => ConnState.framed_create)
    (ended_of_not_mem List.not_mem_nil)).symm

/-- Alice logs out, and the server answers the line after it. -/
theorem closing_line_not_ended :
    ¬ ∀ (fd : Fd) (w : World) (inputs : List ServedEvent), ∀ pre, pre <+: inputs →
      (run (step fd) (create w) pre).Ended := by
  intro h
  let w := run ChatServer.step (.init ⟨4, 4, 4, 10⟩ .empty 0)
    [(.calm 0 0 [], .accept 5 false), (.calm 0 0 "t".toList, .line 5 "REGISTER alice pw".toList)]
  let calls :=
    [ServedEvent.conn (.arrive "LOGOUT\nREADY\n".toList false) fun _ => ⟨[], .calm 0 0 []⟩,
      .conn (.call [⟨[], false, some 4095⟩]) fun _ => ⟨[], .calm 0 0 []⟩]
  have hresults : (run (step 5) (create w) calls).results = [true, false] := by decide +kernel
  exact absurd (h 5 w calls calls List.prefix_rfl [] [false] hresults).1 (List.cons_ne_nil _ _)

end Served

end ChatServer
