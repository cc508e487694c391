import ChatServer.Server.Dispatch

/-! # Keywords

What a line names by its keyword, and what the two parsers make of it. The
answers to HEALTH and READY hang on an argument that only the first parser
sets, and the second one, which runs on every line that the first leaves
invalid, takes it away.
-/

namespace ChatServer

open World

variable {line : Text} {k k' : Keyword}

/-- The first token of a line that does not start with a space. -/
def firstToken (line : Text) : Text := line.takeWhile (· ≠ ' ')

theorem serverArgs_type (type : CmdType) (rest : Text) : (serverArgs type rest).type = type := by
  cases type <;> rfl

theorem takeWhile_append_of_break {word rest : Text} (hrest : rest = [] ∨ rest.head? = some ' ') :
    firstToken (word ++ rest) = firstToken word := by
  unfold firstToken
  induction word with
  | nil =>
    rcases hrest with rfl | h
    · rfl
    · cases rest with
      | nil => rfl
      | cons c rest =>
        obtain rfl := Option.some.inj h
        rfl
  | cons c word ih => simp only [List.cons_append, List.takeWhile_cons, ih]

theorem Keyword.matches_iff (hcr : '\r' ∉ line) (hlf : '\n' ∉ line) :
    k.matches line = true ↔
      line = k.word ∨ k.takesArgs = true ∧ k.word ++ [' '] <+: line := by
  simp only [Keyword.matches, Bool.and_eq_true, List.isPrefixOf_iff_prefix]
  constructor
  · rintro ⟨⟨rest, rfl⟩, hend⟩
    rw [List.drop_left] at hend
    cases rest with
    | nil => exact .inl (List.append_nil _)
    | cons c rest =>
      have hc₁ : c ≠ '\r' := fun h => hcr (h ▸ by simp)
      have hc₂ : c ≠ '\n' := fun h => hlf (h ▸ by simp)
      cases htakes : k.takesArgs with
      | true =>
        rw [htakes, if_pos rfl] at hend
        obtain rfl : c = ' ' := by simpa [atBreak, hc₁, hc₂] using hend
        exact .inr ⟨rfl, rest, by simp⟩
      | false =>
        rw [htakes] at hend
        simp [atLineEnd, hc₁, hc₂] at hend
  · rintro (rfl | ⟨htakes, rest, rfl⟩)
    · rw [List.drop_length]
      exact ⟨List.prefix_rfl, by cases k.takesArgs <;> rfl⟩
    · rw [htakes, List.append_assoc, List.drop_left]
      exact ⟨List.prefix_append _ _, rfl⟩

theorem Keyword.firstToken_of_matches (hcr : '\r' ∉ line) (hlf : '\n' ∉ line)
    (h : k.matches line = true) : firstToken line = firstToken k.word := by
  rcases (Keyword.matches_iff hcr hlf).mp h with rfl | ⟨-, rest, rfl⟩
  · rfl
  · rw [List.append_assoc]
    exact takeWhile_append_of_break (.inr rfl)

/-- The first tokens of the keywords tell them apart, and from the older commands. -/
theorem keywords_disjoint :
    (∀ k ∈ srijalKeywords, ∀ k' ∈ srijalKeywords,
      firstToken k.word = firstToken k'.word → k.type = k'.type) ∧
    ∀ k ∈ srijalKeywords, ∀ c ∈ serverCommands, firstToken k.word ≠ c.1 := by
  decide

theorem preParse_type_of_matches (hcr : '\r' ∉ line) (hlf : '\n' ∉ line) (hk : k ∈ srijalKeywords)
    (h : k.matches line = true) : (preParseSrijalCommands line).type = k.type := by
  unfold preParseSrijalCommands
  cases hfind : srijalKeywords.find? (·.matches line) with
  | none => exact absurd h (List.find?_eq_none.mp hfind k hk)
  | some k' =>
    have hk' : k' ∈ srijalKeywords := List.mem_of_find?_eq_some hfind
    have hmatches : k'.matches line = true := by simpa using List.find?_some hfind
    have htype : k'.type = k.type := keywords_disjoint.1 k' hk' k hk
      ((Keyword.firstToken_of_matches hcr hlf hmatches).symm.trans
        (Keyword.firstToken_of_matches hcr hlf h))
    simp only
    split_ifs
    · rw [parseArgs_type, htype]
    · exact htype

theorem preParse_type_of_not_matches (h : ∀ k ∈ srijalKeywords, ¬ k.matches line = true) :
    (preParseSrijalCommands line).type = .invalid := by
  unfold preParseSrijalCommands
  rw [List.find?_eq_none.mpr h]
  simp only
  split_ifs
  · rfl
  · rfl
  · rfl

theorem strtokSpace_eq {c : Char} (rest : Text) (hc : c ≠ ' ') :
    (strtokSpace (c :: rest)).1 = some (firstToken (c :: rest)) := by
  simp [strtokSpace, strtok, firstToken, hc]

theorem parseIncoming_type (hspace : line.head? ≠ some ' ') :
    (parseIncomingCommandServer line).type =
      (serverCommands.lookup (firstToken line)).getD .invalid := by
  cases line with
  | nil => rfl
  | cons c rest =>
    have hc : c ≠ ' ' := fun h => hspace (h ▸ rfl)
    have htoken := strtokSpace_eq rest hc
    unfold parseIncomingCommandServer
    rcases hs : strtokSpace (c :: rest) with ⟨token, rest'⟩
    rw [hs] at htoken
    obtain rfl : token = _ := htoken
    simp only
    cases serverCommands.lookup (firstToken (c :: rest)) with
    | none => rfl
    | some type => exact serverArgs_type type rest'

theorem mem_of_lookup {α β : Type*} [BEq α] [LawfulBEq α] {l : List (α × β)} {a : α} {b : β}
    (h : l.lookup a = some b) : (a, b) ∈ l := by
  obtain ⟨l₁, l₂, rfl, -⟩ := List.lookup_eq_some_iff.mp h
  exact List.mem_append_right _ List.mem_cons_self

theorem serverCommands_ne_invalid : ∀ c ∈ serverCommands, c.2 ≠ .invalid := by decide

theorem serverCommands_lookup : ∀ c ∈ serverCommands, serverCommands.lookup c.1 = some c.2 := by
  decide

/-- Only the first parser leaves an argument with the invalid command. -/
theorem parseLine_arg1_of_invalid (h : (parseLine line).type = .invalid) :
    (parseLine line).arg1 = none := by
  unfold parseLine at h ⊢
  simp only at h ⊢
  split_ifs at h ⊢ with hpre
  · unfold parseIncomingCommandServer at h ⊢
    split at h
    · rfl
    · split at h
      · rename_i hlookup
        rw [serverArgs_type] at h
        exact absurd h (serverCommands_ne_invalid _ (mem_of_lookup hlookup))
      · rfl
  · exact absurd h hpre

/-- The commands that are a whole line. -/
def lineCommands : List (Text × CmdType) :=
  [("LOGOUT_ALL".toList, .logoutAll), ("STOP_TYPING".toList, .stopTyping),
   ("SESSIONS".toList, .sessions), ("TYPING".toList, .typing)]

/-- The commands named by the first token of a line. -/
def tokenCommands : List (Text × CmdType) :=
  [("REVOKE_SESSION".toList, .revokeSession), ("CREATE_PRIVATE".toList, .createPrivate),
   ("UNBLOCK".toList, .unblock), ("UNMUTE".toList, .unmute), ("BLOCK".toList, .block),
   ("MUTE".toList, .mute), ("BAN".toList, .ban), ("LOGOUT".toList, .logout),
   ("READ".toList, .read), ("DECLINE".toList, .decline), ("DEMOTE".toList, .demote),
   ("INVITE".toList, .invite), ("ACCEPT".toList, .accept)] ++ serverCommands

def revokeWords : Text := "REVOKE SESSION".toList

/-- The command a line names by its keyword. -/
inductive Names : Text → CmdType → Prop
  | line {word : Text} {type : CmdType} (h : (word, type) ∈ lineCommands) : Names word type
  | token {line : Text} {type : CmdType} (h : (firstToken line, type) ∈ tokenCommands) :
    Names line type
  | revoke {line : Text} (h : line = revokeWords ∨ revokeWords ++ [' '] <+: line) :
    Names line .revokeSession

theorem lineCommands_tested : ∀ c ∈ lineCommands,
    ∃ k ∈ srijalKeywords, k.word = c.1 ∧ k.type = c.2 := by
  decide

theorem tokenCommands_tested : ∀ c ∈ tokenCommands, c ∈ serverCommands ∨
    ∃ k ∈ srijalKeywords, k.takesArgs = true ∧ k.word = c.1 ∧ k.type = c.2 := by
  decide

theorem revokeWords_tested : ∃ k ∈ srijalKeywords,
    k.takesArgs = true ∧ k.word = revokeWords ∧ k.type = .revokeSession := by
  decide

theorem keywords_named : ∀ k ∈ srijalKeywords,
    (k.word, k.type) ∈ lineCommands ∧ k.takesArgs = false ∨
    (firstToken k.word, k.type) ∈ tokenCommands ∨
    k.word = revokeWords ∧ k.type = .revokeSession := by
  decide

theorem starts_of_firstToken {word : Text} (h : firstToken line = word) :
    line = word ∨ word ++ [' '] <+: line := by
  have hsplit : line = word ++ line.dropWhile (· ≠ ' ') := by
    rw [← h, firstToken, List.takeWhile_append_dropWhile]
  cases hrest : line.dropWhile (· ≠ ' ') with
  | nil => exact .inl (by rw [hsplit, hrest, List.append_nil])
  | cons c rest =>
    have hc : c = ' ' := by
      have hhead := List.head?_dropWhile_not (· ≠ ' ') line
      rw [hrest] at hhead
      simpa using hhead
    exact .inr ⟨rest, by rw [List.append_assoc, hsplit, hrest, hc]; rfl⟩

theorem parseLine_type_of_matches (hcr : '\r' ∉ line) (hlf : '\n' ∉ line) (hk : k ∈ srijalKeywords)
    (h : k.matches line = true) : (parseLine line).type = k.type := by
  have htype := preParse_type_of_matches hcr hlf hk h
  have hvalid : ∀ k ∈ srijalKeywords, k.type ≠ .invalid := by decide
  unfold parseLine
  simp only [htype, hvalid k hk, if_false]

theorem parseLine_type_of_not_matches (hspace : line.head? ≠ some ' ')
    (h : ∀ k ∈ srijalKeywords, ¬ k.matches line = true) :
    (parseLine line).type = (serverCommands.lookup (firstToken line)).getD .invalid := by
  unfold parseLine
  simp only [preParse_type_of_not_matches h, if_true]
  exact parseIncoming_type hspace

theorem parseLine_type_of_names {type : CmdType} (hspace : line.head? ≠ some ' ')
    (hcr : '\r' ∉ line) (hlf : '\n' ∉ line) (h : Names line type) :
    (parseLine line).type = type := by
  have hmatches {k : Keyword} (hstart : line = k.word ∨ k.takesArgs = true ∧
      k.word ++ [' '] <+: line) : k.matches line = true := (Keyword.matches_iff hcr hlf).mpr hstart
  cases h with
  | line h =>
    obtain ⟨k, hk, rfl, rfl⟩ := lineCommands_tested _ h
    exact parseLine_type_of_matches hcr hlf hk (hmatches (.inl rfl))
  | token h =>
    rcases tokenCommands_tested _ h with hserver | ⟨k, hk, htakes, hword, rfl⟩
    · rw [parseLine_type_of_not_matches hspace fun k hk hm => ?_]
      · rw [serverCommands_lookup _ hserver, Option.getD_some]
      · exact keywords_disjoint.2 k hk _ hserver (Keyword.firstToken_of_matches hcr hlf hm).symm
    · refine parseLine_type_of_matches hcr hlf hk (hmatches ?_)
      exact (starts_of_firstToken hword.symm).imp_right fun h => ⟨htakes, h⟩
  | revoke h =>
    obtain ⟨k, hk, htakes, hword, htype⟩ := revokeWords_tested
    rw [← htype]
    refine parseLine_type_of_matches hcr hlf hk (hmatches ?_)
    exact hword ▸ h.imp_right fun h => ⟨htakes, h⟩

theorem parseLine_type_of_not_names (hspace : line.head? ≠ some ' ') (hcr : '\r' ∉ line)
    (hlf : '\n' ∉ line) (h : ∀ type, ¬ Names line type) : (parseLine line).type = .invalid := by
  rw [parseLine_type_of_not_matches hspace fun k hk hm => ?_]
  · cases hlookup : serverCommands.lookup (firstToken line) with
    | none => rfl
    | some type =>
      exact absurd (.token (List.mem_append_right _ (mem_of_lookup hlookup))) (h type)
  · refine h k.type ?_
    have hstart := (Keyword.matches_iff hcr hlf).mp hm
    rcases keywords_named k hk with ⟨hline, hbare⟩ | htoken | ⟨hword, htype⟩
    · rcases hstart with rfl | ⟨htakes, -⟩
      · exact .line hline
      · exact absurd (hbare.symm.trans htakes) (by decide)
    · rw [← Keyword.firstToken_of_matches hcr hlf hm] at htoken
      exact .token htoken
    · rw [htype]
      exact .revoke (hword ▸ hstart.imp_right And.right)

variable (env : Env) (conn : Conn) (w : World)

/-- The handler of a command, on a connection that is logged in or not. -/
def handleCommand (command : Cmd) : World × Bool :=
  match conn.me with
  | none => (dispatchAnonymous env command conn w, false)
  | some me => (dispatch env command conn me w, command.type = .logout ∨ command.type = .logoutAll)

def healthReply : Text :=
  snprintf maxLineLen (lineOf ["OK HEALTH".toList,
    "uptime=".toList ++ decimal (env.now - w.uptimeStart), "active=0".toList])

def readyReply : Text := snprintf maxLineLen (lineOf [replyOk, "READY ok".toList])

theorem processLine_eq_handleCommand (line : Text) :
    processLine env conn line w = handleCommand env conn w (parseLine line) := by
  have hnone (word : Text) :
      ¬ ((parseLine line).type = .invalid ∧ (parseLine line).arg1 = some word) :=
    fun ⟨h, harg⟩ => by simp [parseLine_arg1_of_invalid h] at harg
  unfold processLine handleCommand
  cases conn.me with
  | none => simp only [hnone, if_false]
  | some me => simp only [hnone, if_false]

/-- The line is given to the handler of a command. -/
def GivenTo (line : Text) (type : CmdType) : Prop :=
  (parseLine line).type = type ∧
    processLine env conn line w = handleCommand env conn w (parseLine line)

/--
HEALTH and READY have answers of their own, a line that names a command goes to
its handler, and every other line is an invalid command.
-/
structure FollowsKeyword (line : Text) : Prop where
  health : line = "HEALTH".toList →
    processLine env conn line w = (w.reply conn (healthReply env w), false)
  ready : line = "READY".toList → processLine env conn line w = (w.reply conn readyReply, false)
  named : ∀ type, Names line type → GivenTo env conn w line type
  other : line ≠ "HEALTH".toList → line ≠ "READY".toList → (∀ type, ¬ Names line type) →
    GivenTo env conn w line .invalid

theorem handleCommand_invalid {command : Cmd} (h : command.type = .invalid) :
    ∃ errCode, (handleCommand env conn w command).1 = w.replyErr conn errCode := by
  unfold handleCommand
  cases conn.me with
  | none => exact ⟨errNotRegistered, by simp [dispatchAnonymous, h]⟩
  | some me => exact ⟨errInvalidCommand, by simp [dispatch, h]⟩

theorem processLine_ne_of_invalid {text : Text} (h : (parseLine line).type = .invalid)
    (hok : text.head? = some 'O') : processLine env conn line w ≠ (w.reply conn text, false) := by
  intro heq
  rw [processLine_eq_handleCommand] at heq
  obtain ⟨errCode, herr⟩ := handleCommand_invalid env conn w h
  rw [heq] at herr
  have hout := congrArg World.out herr
  simp only [reply_eq, replyErr_eq, emit_out, List.append_cancel_left_eq, List.cons.injEq,
    Output.mk.injEq, Line.mk.injEq, true_and, and_true] at hout
  have herrHead : (formatErrReply maxLineLen errCode).head? = some 'E' := rfl
  rw [hout, herrHead] at hok
  cases hok

theorem not_names (hline : ∀ c ∈ lineCommands, c.1 ≠ line)
    (htoken : ∀ c ∈ tokenCommands, c.1 ≠ firstToken line)
    (hrevoke : ¬ (line = revokeWords ∨ revokeWords ++ [' '] <+: line)) (type : CmdType) :
    ¬ Names line type := by
  rintro (h | h | h)
  · exact hline _ h rfl
  · exact htoken _ h rfl
  · exact hrevoke h

/--
On every connection a line without leading space and without CR goes where its
keyword says, unless it is HEALTH or READY.
-/
theorem follows_keyword_iff (hspace : line.head? ≠ some ' ') (hcr : '\r' ∉ line)
    (hlf : '\n' ∉ line) :
    FollowsKeyword env conn w line ↔ line ≠ "HEALTH".toList ∧ line ≠ "READY".toList := by
  constructor
  · refine fun h => ⟨?_, ?_⟩
    · rintro rfl
      refine processLine_ne_of_invalid env conn w ?_ rfl (h.health rfl)
      exact parseLine_type_of_not_names hspace hcr hlf
        (not_names (by decide) (by decide) (by decide))
    · rintro rfl
      refine processLine_ne_of_invalid env conn w ?_ rfl (h.ready rfl)
      exact parseLine_type_of_not_names hspace hcr hlf
        (not_names (by decide) (by decide) (by decide))
  · rintro ⟨hhealth, hready⟩
    exact {
      health := fun h => absurd h hhealth
      ready := fun h => absurd h hready
      named := fun type h => ⟨parseLine_type_of_names hspace hcr hlf h,
        processLine_eq_handleCommand env conn w line⟩
      other := fun _ _ h => ⟨parseLine_type_of_not_names hspace hcr hlf h,
        processLine_eq_handleCommand env conn w line⟩ }

/-- READ, a keyword that is a prefix of READY, is followed. -/
theorem follows_keyword_read :
    FollowsKeyword (.calm 0 0 []) ⟨0, none, false⟩ (.init ⟨4, 4, 4, 10⟩ .empty 0) "READ 1".toList :=
  (follows_keyword_iff _ _ _ (by decide) (by decide) (by decide)).mpr (by decide)

/-- HEALTH on an anonymous connection is answered with an error. -/
theorem health_not_followed :
    ¬ ∀ (env : Env) (conn : Conn) (w : World) (line : Text), line.head? ≠ some ' ' →
      '\r' ∉ line → '\n' ∉ line → FollowsKeyword env conn w line := by
  intro h
  have hfollows := h (.calm 0 0 []) ⟨0, none, false⟩ (.init ⟨4, 4, 4, 10⟩ .empty 0)
    "HEALTH".toList (by decide) (by decide) (by decide)
  have hanswer := congrArg (fun r => r.1.out) (hfollows.health rfl)
  revert hanswer
  decide +kernel

end ChatServer
