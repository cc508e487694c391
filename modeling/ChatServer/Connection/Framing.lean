import ChatServer.Connection.HandleClient
import ChatServer.Server.Dispatch

/-! # Framing

While a connection is open, the lines that have been processed are the
terminated lines of the bytes received, and the buffer holds the unterminated
rest, however the bytes arrive.
-/

namespace ChatServer

open Library

namespace ConnState

variable {s s' : ConnState} {l r bytes : List Char} {n : ℕ} {attempts : List Attempt}

/-- The buffer of a connection has its size, and its data leaves room for a NUL. -/
structure WellSized (s : ConnState) : Prop where
  size : s.buf.length = connBufSize
  fits : s.bufLen ≤ connBufSize - 1

theorem WellSized.length_data (h : s.WellSized) : s.data.length = s.bufLen := by
  have hsize := h.size
  have hfits := h.fits
  simp only [data, List.length_take, hsize]
  omega

/-- Some bytes were received behind the data of the buffer. -/
structure Received (s s' : ConnState) (bytes : List Char) : Prop where
  sized : s'.WellSized
  data : s'.data = s.data ++ bytes
  received : s'.received = s.received ++ bytes
  lines : s'.lines = s.lines
  gone : s'.gone = s.gone

theorem Received.refl (h : s.WellSized) : Received s s [] :=
  ⟨h, (List.append_nil _).symm, (List.append_nil _).symm, rfl, rfl⟩

theorem received_arrive (h : s.WellSized) (bytes : List Char) (closes : Bool) :
    Received s (s.arrive bytes closes) [] := by
  unfold arrive
  split_ifs
  · exact .refl h
  · exact ⟨⟨h.size, h.fits⟩, (List.append_nil _).symm, (List.append_nil _).symm, rfl, rfl⟩

theorem received_fill (h : s.WellSized) (hspace : n ≤ s.space) (hn : n ≤ s.pending.length) :
    Received s (s.fill n) (s.pending.take n) := by
  have hlen := h.length_data
  have hsize := h.size
  have hfits := h.fits
  simp only [space] at hspace
  have hdata : (s.data ++ s.pending.take n).length = s.bufLen + n := by
    rw [List.length_append, hlen, List.length_take, Nat.min_eq_left hn]
  refine ⟨⟨?_, ?_⟩, ?_, rfl, rfl, rfl⟩
  · simp only [fill, List.length_append, hlen, List.length_take, List.length_drop, hsize]
    omega
  · simp only [fill]
    omega
  · simp only [fill, ConnState.data] at hdata ⊢
    rw [← hdata, List.take_left]

theorem Received.trans {s₁ s₂ s₃ : ConnState} {a b : List Char} (h₁ : Received s₁ s₂ a)
    (h₂ : Received s₂ s₃ b) : Received s₁ s₃ (a ++ b) := by
  refine ⟨h₂.sized, ?_, ?_, h₂.lines.trans h₁.lines, h₂.gone.trans h₁.gone⟩
  · rw [h₂.data, h₁.data, List.append_assoc]
  · rw [h₂.received, h₁.received, List.append_assoc]

theorem readLoop_received (h : s.WellSized) (attempts : List Attempt) :
    ∃ bytes, Received s (s.readLoop attempts).1 bytes := by
  induction attempts generalizing s with
  | nil => exact ⟨[], .refl h⟩
  | cons a attempts ih =>
    unfold readLoop
    split_ifs with hroom
    · have harrive := received_arrive h a.bytes a.closes
      simp only
      split
      · exact ⟨[], harrive⟩
      · rename_i n _
        split_ifs with hpos
        · have hfill := received_fill harrive.sized
            (n := min n (min (s.arrive a.bytes a.closes).space
              (s.arrive a.bytes a.closes).pending.length)) (by omega) (by omega)
          obtain ⟨bytes, hrest⟩ := ih hfill.sized
          exact ⟨_, (harrive.trans hfill).trans hrest⟩
        · exact ⟨[], harrive⟩
    · exact ⟨[], .refl h⟩

theorem findIdx_newline (h : '\n' ∉ l) : l.findIdx? (· = '\n') = none :=
  List.findIdx?_eq_none_iff.mpr fun _ hc => decide_eq_false fun heq => h (heq ▸ hc)

theorem newline_cases (s : ConnState) :
    (s.newline = none ∧ '\n' ∉ s.data) ∨
      ∃ l r, s.data = l ++ '\n' :: r ∧ '\n' ∉ l ∧ s.newline = some l.length := by
  by_cases hmem : '\n' ∈ s.data
  · obtain ⟨l, r, hdata, hl⟩ := List.eq_append_cons_of_mem hmem
    refine .inr ⟨l, r, hdata, hl, ?_⟩
    rw [newline, hdata, List.findIdx?_append, findIdx_newline hl]
    simp [List.findIdx?_cons]
  · exact .inl ⟨findIdx_newline hmem, hmem⟩

theorem cstr_append_nul : cstr (l ++ '\x00' :: r) = cstr l := by
  induction l with
  | nil => simp [cstr]
  | cons c l ih =>
    simp only [cstr] at ih
    simp only [cstr, List.cons_append, List.takeWhile_cons, ih]

/-- The buffer that `process_line` gets: the line, terminated, and what follows it. -/
theorem terminate_line (l r : List Char) :
    let buf := (l ++ '\n' :: r).set l.length '\x00'
    let buf' := if 0 < l.length ∧ buf[l.length - 1]? = some '\r' then
      buf.set (l.length - 1) '\x00' else buf
    cstr buf' = lineText l ∧ ∃ l', l'.length = l.length ∧ buf' = l' ++ '\x00' :: r := by
  have hset : (l ++ '\n' :: r).set l.length '\x00' = l ++ '\x00' :: r := by simp
  simp only [hset]
  rcases List.eq_nil_or_concat l with rfl | ⟨l', c, rfl⟩
  · exact ⟨by simp [cstr, lineText], [], rfl, by simp⟩
  · simp only [List.concat_eq_append]
    have hlast : (l' ++ [c] ++ '\x00' :: r)[(l' ++ [c]).length - 1]? = some c := by simp
    have hcut : (l' ++ [c] ++ '\x00' :: r).set ((l' ++ [c]).length - 1) '\x00' =
        l' ++ ['\x00'] ++ '\x00' :: r := by simp
    rw [hlast, hcut]
    by_cases hc : c = '\r'
    · rw [if_pos ⟨by simp, by rw [hc]⟩]
      refine ⟨?_, l' ++ ['\x00'], by simp, rfl⟩
      rw [List.append_assoc, List.singleton_append, cstr_append_nul]
      simp [lineText, hc]
    · rw [if_neg fun h => hc (Option.some.inj h.2)]
      refine ⟨?_, l' ++ [c], rfl, rfl⟩
      rw [cstr_append_nul]
      simp [lineText, hc]

theorem processOne_spec (h : s.WellSized) (hdata : s.data = l ++ '\n' :: r) :
    (s.processOne l.length).WellSized ∧ (s.processOne l.length).data = r ∧
      (s.processOne l.length).lines = s.lines ++ [lineText l] ∧
      (s.processOne l.length).bufLen < s.bufLen := by
  have hlen := h.length_data
  have hsize := h.size
  have hfits := h.fits
  rw [hdata, List.length_append, List.length_cons] at hlen
  obtain ⟨tail, hbuf⟩ : ∃ tail, s.buf = l ++ '\n' :: (r ++ tail) := by
    refine ⟨s.buf.drop s.bufLen, ?_⟩
    rw [← List.cons_append, ← List.append_assoc, ← hdata]
    exact (List.take_append_drop _ _).symm
  obtain ⟨hline, l', hl', hbuf'⟩ := terminate_line l (r ++ tail)
  rw [← hbuf] at hline hbuf'
  unfold processOne
  simp only
  generalize (if 0 < l.length ∧ (s.buf.set l.length '\x00')[l.length - 1]? = some '\r' then
    (s.buf.set l.length '\x00').set (l.length - 1) '\x00' else s.buf.set l.length '\x00') = buf
    at hline hbuf' ⊢
  have hnul : buf[l.length]? = some '\x00' := by
    rw [hbuf', ← hl']
    simp
  have hsame := sameFrom_parseLineAt hnul
  have hrest : (parseLineAt buf).2.drop (l.length + 1) = r ++ tail := by
    rw [← List.drop_drop, hsame.drop, hbuf', ← hl', List.drop_left]
    rfl
  have hlength : (parseLineAt buf).2.length = connBufSize := by
    rw [hsame.length, hbuf', ← hsize, hbuf]
    simp [hl']
  have hremaining : s.bufLen - (l.length + 1) = r.length := by omega
  rw [hremaining, hrest, List.take_left, hline]
  split_ifs with hpos
  · refine ⟨⟨?_, by simp only; omega⟩, List.take_left, rfl, by omega⟩
    rw [List.length_append, List.length_drop, hlength]
    omega
  · obtain rfl : r = [] := List.eq_nil_of_length_eq_zero (by omega)
    exact ⟨⟨hlength, Nat.zero_le _⟩, rfl, rfl, by omega⟩

/-- The loop passes on every line of the data and leaves the rest. -/
theorem processLines_spec (h : s.WellSized) {fuel : ℕ} (hfuel : s.bufLen ≤ fuel) :
    (processLines fuel s).WellSized ∧
      (processLines fuel s).data = unterminated '\n' s.data ∧
      (processLines fuel s).lines = s.lines ++ (terminated '\n' s.data).map lineText ∧
      (processLines fuel s).received = s.received ∧ (processLines fuel s).gone = s.gone := by
  induction fuel generalizing s with
  | zero =>
    have hnil : s.data = [] := List.eq_nil_of_length_eq_zero (by rw [h.length_data]; omega)
    refine ⟨h, ?_, ?_, rfl, rfl⟩
    · rw [unterminated_of_not_mem (by simp [hnil])]
      rfl
    · rw [terminated_of_not_mem (by simp [hnil]), List.map_nil, List.append_nil]
      rfl
  | succ fuel ih =>
    unfold processLines
    rcases s.newline_cases with ⟨hnone, hmem⟩ | ⟨l, r, hdata, hl, hsome⟩
    · rw [hnone, unterminated_of_not_mem hmem, terminated_of_not_mem hmem]
      exact ⟨h, rfl, (List.append_nil _).symm, rfl, rfl⟩
    · obtain ⟨hsized, hdata', hlines, hshort⟩ := processOne_spec h hdata
      rw [hsome, hdata, unterminated_line hl, terminated_line hl]
      obtain ⟨hsized', hrest, hlines', hrec, hgone⟩ := ih hsized (by omega)
      refine ⟨hsized', by rw [hrest, hdata'], ?_, hrec, hgone⟩
      rw [hlines', hlines, hdata', List.append_assoc]
      rfl

/-- The lines processed and the data of the buffer are those of the bytes received. -/
structure Framed (s : ConnState) : Prop where
  sized : s.WellSized
  data : s.data = unterminated '\n' s.received
  lines : s.lines = (terminated '\n' s.received).map lineText

theorem framed_create : create.Framed where
  sized := ⟨List.length_replicate, Nat.zero_le _⟩
  data := rfl
  lines := rfl

/-- A call finds the connection closing, reads up to its end, or processes what it read. -/
theorem handleClient_cases (s : ConnState) (attempts : List Attempt) :
    (s.closing = true ∧ s.handleClient attempts = s.disconnect) ∨
    (s.closing = false ∧ (s.readLoop attempts).2 = true ∧
      s.handleClient attempts = (s.readLoop attempts).1.disconnect) ∨
    (s.closing = false ∧ (s.readLoop attempts).2 = false ∧
      s.handleClient attempts =
        processLines (s.readLoop attempts).1.bufLen (s.readLoop attempts).1) := by
  cases hclosing : s.closing with
  | true => exact .inl ⟨rfl, by simp [handleClient, hclosing]⟩
  | false =>
    cases hread : (s.readLoop attempts).2 with
    | true => exact .inr (.inl ⟨rfl, rfl, by simp [handleClient, hclosing, hread]⟩)
    | false => exact .inr (.inr ⟨rfl, rfl, by simp [handleClient, hclosing, hread]⟩)

/-- A call that leaves the connection open has processed the lines that it completed. -/
theorem framed_handleClient (h : s.Framed) (hopen : (s.handleClient attempts).gone = false) :
    (s.handleClient attempts).Framed := by
  rcases s.handleClient_cases attempts with ⟨-, heq⟩ | ⟨-, -, heq⟩ | ⟨-, -, heq⟩
  · rw [heq] at hopen
    cases hopen
  · rw [heq] at hopen
    cases hopen
  · obtain ⟨bytes, hread⟩ := readLoop_received h.sized attempts
    obtain ⟨hsized, hdata, hlines, hrec, -⟩ := processLines_spec hread.sized (Nat.le_refl _)
    rw [heq]
    refine ⟨hsized, ?_, ?_⟩
    · rw [hdata, hrec, hread.data, hread.received, h.data, ← unterminated_append]
    · rw [hlines, hrec, hread.data, hread.received, hread.lines, h.data, h.lines,
        ← List.map_append, ← terminated_append]

theorem framed_step (h : s.gone = false → s.Framed) (e : ConnEvent) :
    (s.step e).gone = false → (s.step e).Framed := by
  intro hopen
  unfold step at hopen ⊢
  split_ifs at hopen ⊢ with hgone
  · rw [hgone] at hopen
    cases hopen
  · have hframed := h (by simpa using hgone)
    cases e with
    | arrive bytes closes =>
      have harrive := received_arrive hframed.sized bytes closes
      refine ⟨harrive.sized, ?_, ?_⟩
      · rw [harrive.data, harrive.received, List.append_nil, List.append_nil, hframed.data]
      · rw [harrive.lines, harrive.received, List.append_nil, hframed.lines]
    | hangup => exact ⟨⟨hframed.sized.size, hframed.sized.fits⟩, hframed.data, hframed.lines⟩
    | call attempts => exact framed_handleClient hframed hopen

theorem run_framed (inputs : List ConnEvent) (hopen : (run step create inputs).gone = false) :
    (run step create inputs).Framed :=
  run_invariant (I := fun s : ConnState => s.gone = false → s.Framed) (fun _ e h => framed_step h e)
    (fun _ => framed_create) inputs hopen

/--
While the connection is open, the lines passed to `process_line` are the
terminated lines of the bytes received, and the buffer holds the rest, however
the bytes were cut into reads and calls.
-/
theorem lines_framed (inputs : List ConnEvent) (hopen : (run step create inputs).gone = false) :
    let s := run step create inputs
    s.lines = (terminated '\n' s.received).map lineText ∧
      s.buf.take s.bufLen = unterminated '\n' s.received ∧ s.bufLen ≤ connBufSize - 1 :=
  ⟨(run_framed inputs hopen).lines, (run_framed inputs hopen).data,
    (run_framed inputs hopen).sized.fits⟩

/-- A line in two pieces, and one that is not complete. -/
theorem lines_framed_split :
    let s := run step create [.arrive "WH".toList false, .call [⟨[], false, some 9⟩],
      .call [⟨"O\r\nROO".toList, false, some 5⟩, ⟨[], false, some 1⟩, ⟨[], false, some 9⟩]]
    s.received = "WHO\r\nROO".toList ∧ s.lines = (terminated '\n' s.received).map lineText ∧
      s.buf.take s.bufLen = unterminated '\n' s.received ∧ s.bufLen ≤ connBufSize - 1 :=
  ⟨by decide +kernel, lines_framed _ (by decide +kernel)⟩

/-- The events of the server that the calls of a connection amount to. -/
def events (fd : Fd) (s : ConnState) : List Event :=
  s.lines.map (.line fd) ++ if s.gone then [.disconnect fd] else []

/-- The events of an open connection depend on the bytes received, not on how they arrived. -/
theorem events_framed (fd : Fd) (inputs : List ConnEvent)
    (hopen : (run step create inputs).gone = false) :
    events fd (run step create inputs) =
      (terminated '\n' (run step create inputs).received).map fun line =>
        .line fd (lineText line) := by
  rw [events, (run_framed inputs hopen).lines, hopen, List.map_map]
  exact List.append_nil _

end ConnState

end ChatServer
