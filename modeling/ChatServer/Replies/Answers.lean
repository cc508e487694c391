import ChatServer.Server.Dispatch

/-! # Commands that only answer

Most commands send one line, to the connection they came from.
-/

namespace ChatServer

open World

/-- One line, without a message, is sent to the connection itself. -/
def Answers (conn : Conn) (outs outs' : List Output) : Prop :=
  ∃ text, outs' = outs ++ [⟨conn.fd, conn.channel, { bytes := text }⟩]

/-- The words that start the answer to a command. -/
def statusWords : List Text :=
  [replyOk, replyErr, replyWho, replyRooms, replySessions, replyHistory]

/-- A line that answers a command. -/
def IsStatus (bytes : Text) : Prop := ∃ word ∈ statusWords, word <+: bytes

/-- One answer, and no other line, is sent to the connection itself. -/
def AnswersOnce (conn : Conn) (outs outs' : List Output) : Prop :=
  ∃ text, IsStatus text ∧ outs' = outs ++ [⟨conn.fd, conn.channel, { bytes := text }⟩]

/-- Lines without messages are sent to the connection itself. -/
def Replies (conn : Conn) (outs outs' : List Output) : Prop :=
  ∃ texts : List Text,
    outs' = outs ++ texts.map fun text => ⟨conn.fd, conn.channel, { bytes := text }⟩

variable {env : Env} {w : World} {command : Cmd} {conn : Conn} {me : ClientPtr} {text : Text}

theorem Answers.replies {outs outs' : List Output} (h : Answers conn outs outs') :
    Replies conn outs outs' := by
  obtain ⟨text, rfl⟩ := h
  exact ⟨[text], rfl⟩

theorem Replies.trans {outs outs' outs'' : List Output} (h : Replies conn outs outs')
    (h' : Replies conn outs' outs'') : Replies conn outs outs'' := by
  obtain ⟨texts, rfl⟩ := h
  obtain ⟨texts', rfl⟩ := h'
  exact ⟨texts ++ texts', by simp⟩

theorem AnswersOnce.answers {outs outs' : List Output} (h : AnswersOnce conn outs outs') :
    Answers conn outs outs' := by
  obtain ⟨text, -, rfl⟩ := h
  exact ⟨text, rfl⟩

theorem length_lt_of_mem_statusWords {word : Text} (hword : word ∈ statusWords) :
    word.length < maxLineLen := by
  revert hword word
  decide

theorem isStatus_snprintf {word rest : Text} (hword : word ∈ statusWords) :
    IsStatus (snprintf maxLineLen (word ++ rest)) := by
  have hlen := length_lt_of_mem_statusWords hword
  exact ⟨word, hword, List.prefix_take_iff.mpr ⟨List.prefix_append _ _, by omega⟩⟩

theorem isStatus_lineOf_append {word rest : Text} {words : List Text}
    (hword : word ∈ statusWords) :
    IsStatus (snprintf maxLineLen (lineOf ((word ++ rest) :: words))) := by
  cases words with
  | nil =>
    rw [lineOf, List.intercalate_singleton, List.append_assoc]
    exact isStatus_snprintf hword
  | cons word' words =>
    rw [lineOf, List.intercalate_cons_cons]
    simp only [List.append_assoc]
    exact isStatus_snprintf hword

theorem isStatus_lineOf {word : Text} {words : List Text} (hword : word ∈ statusWords) :
    IsStatus (snprintf maxLineLen (lineOf (word :: words))) := by
  simpa using @isStatus_lineOf_append word [] words hword

section Buffer

open ListBuf

variable {b : ListBuf} {word : Text}

theorem prefix_print {piece : Text} (hb : word <+: b.text) (hword : word ∈ statusWords) :
    word <+: (b.print piece).text := by
  have hlen := length_lt_of_mem_statusWords hword
  exact List.prefix_take_iff.mpr ⟨hb.trans (List.prefix_append _ _), by omega⟩

theorem prefix_printAll {entries : List Text} (hb : word <+: b.text)
    (hword : word ∈ statusWords) : word <+: (printAll entries b).text := by
  induction entries generalizing b with
  | nil => exact hb
  | cons entry entries ih => exact ih (prefix_print hb hword)

theorem prefix_printGuarded {entries : List Text} (hb : word <+: b.text)
    (hword : word ∈ statusWords) : word <+: (printGuarded entries b).text := by
  induction entries generalizing b with
  | nil => exact hb
  | cons entry entries ih =>
    unfold printGuarded
    split_ifs
    · exact prefix_print hb hword
    · exact ih (prefix_print hb hword)

theorem prefix_print_empty {rest : Text} (hword : word ∈ statusWords) :
    word <+: (print (word ++ rest) {}).text := by
  have hlen := length_lt_of_mem_statusWords hword
  exact List.prefix_take_iff.mpr ⟨List.prefix_append _ _, by omega⟩

theorem isStatus_listReply {entries : List Text} (hword : word ∈ statusWords) :
    IsStatus (listReply word entries command).text := by
  refine ⟨word, hword, ?_⟩
  unfold listReply
  simp only
  split_ifs
  · refine prefix_print (prefix_printGuarded ?_ hword) hword
    rw [List.intercalate_cons_cons, List.append_assoc]
    exact prefix_print_empty hword
  · refine prefix_print (prefix_printAll ?_ hword) hword
    simpa using @prefix_print_empty word [] hword

theorem isStatus_sessionsReply {user : Text} {db : Database} :
    IsStatus (sessionsReply env user db).text := by
  have hword : replySessions ∈ statusWords := by decide
  refine ⟨replySessions, hword, ?_⟩
  refine prefix_print (prefix_printGuarded ?_ hword) hword
  rw [List.intercalate_cons_cons, List.append_assoc]
  exact prefix_print_empty hword

end Buffer

theorem answersOnce_err {errCode : Text} :
    AnswersOnce conn w.out (w.replyErr conn errCode).out :=
  ⟨_, isStatus_lineOf (by decide), rfl⟩

theorem answersOnce_ok {status : Text} : AnswersOnce conn w.out (w.replyOk conn status).out :=
  ⟨_, isStatus_lineOf (by decide), rfl⟩

theorem answers_reply : Answers conn w.out (w.reply conn text).out := ⟨text, rfl⟩

theorem grantSession_answersOnce {status user : Text} :
    AnswersOnce conn w.out (grantSession env conn status user w).out := by
  unfold grantSession
  split
  · refine ⟨_, ?_, rfl⟩
    unfold formatOkSession
    split_ifs
    · exact isStatus_lineOf (by decide)
    · exact isStatus_lineOf (by decide)
  · exact answersOnce_ok

theorem handleRegister_answersOnce :
    AnswersOnce conn w.out (handleRegister env command conn w).out := by
  unfold handleRegister
  split_ifs
  · exact answersOnce_err
  · split
    · split
      · exact answersOnce_err
      · exact answersOnce_err
      · split_ifs
        · exact answersOnce_err
        · split
          · exact grantSession_answersOnce
          · exact answersOnce_err
    · exact answersOnce_err

theorem handleLogin_answersOnce : AnswersOnce conn w.out (handleLogin env command conn w).out := by
  unfold handleLogin
  split_ifs
  · exact answersOnce_err
  · split
    · split
      · exact answersOnce_err
      · exact answersOnce_err
      · exact answersOnce_err
      · split
        · exact grantSession_answersOnce
        · exact answersOnce_err
    · exact answersOnce_err

theorem handleReconnect_answersOnce :
    AnswersOnce conn w.out (handleReconnect env command conn w).out := by
  unfold handleReconnect
  split_ifs
  · exact answersOnce_err
  · split
    · exact answersOnce_err
    · split
      · exact answersOnce_err
      · exact answersOnce_err
      · exact answersOnce_err
      · split_ifs
        · exact answersOnce_err
        · split
          · exact grantSession_answersOnce
          · exact answersOnce_err

theorem handleCreate_answersOnce :
    AnswersOnce conn w.out (handleCreate env command conn me w).out := by
  unfold handleCreate
  split
  · exact answersOnce_err
  · split
    · split
      · exact answersOnce_ok
      · exact answersOnce_err
    · exact answersOnce_err

theorem handleCreatePrivate_answersOnce :
    AnswersOnce conn w.out (handleCreatePrivate env command conn me w).out := by
  unfold handleCreatePrivate
  split
  · exact answersOnce_err
  · split
    · split
      · exact answersOnce_ok
      · exact answersOnce_err
    · exact answersOnce_err
    · exact answersOnce_err

theorem handleWho_answersOnce : AnswersOnce conn w.out (handleWho command conn me w).out := by
  unfold handleWho
  split
  · exact answersOnce_err
  · exact ⟨_, isStatus_listReply (by decide), rfl⟩

theorem handleRevokeSession_answersOnce :
    AnswersOnce conn w.out (handleRevokeSession env command conn w).out := by
  unfold handleRevokeSession
  split
  · exact answersOnce_err
  · split
    · exact answersOnce_ok
    · exact answersOnce_err
    · exact answersOnce_err

theorem replyResult_answersOnce {status err : Text} {result : Bool × Database} :
    AnswersOnce conn w.out (replyResult conn status err result w).out := by
  unfold replyResult
  split_ifs
  · exact answersOnce_ok
  · exact answersOnce_err

theorem handleBlock_answersOnce :
    AnswersOnce conn w.out (handleBlock env command conn me w).out := by
  unfold handleBlock
  split
  · exact answersOnce_err
  · exact replyResult_answersOnce

theorem handleUnblock_answersOnce :
    AnswersOnce conn w.out (handleUnblock env command conn me w).out := by
  unfold handleUnblock
  split
  · exact answersOnce_err
  · exact replyResult_answersOnce

theorem handleMute_answersOnce : AnswersOnce conn w.out (handleMute env command conn me w).out := by
  unfold handleMute
  split
  · exact answersOnce_err
  · simp only
    split_ifs
    · exact answersOnce_err
    · split
      · exact answersOnce_err
      · exact replyResult_answersOnce

theorem handleUnmute_answersOnce :
    AnswersOnce conn w.out (handleUnmute env command conn me w).out := by
  unfold handleUnmute
  split
  · exact answersOnce_err
  · split
    · exact answersOnce_err
    · exact replyResult_answersOnce

theorem handleDemote_answersOnce :
    AnswersOnce conn w.out (handleDemote env command conn me w).out := by
  unfold handleDemote
  split
  · exact answersOnce_err
  · simp only
    split_ifs
    · exact answersOnce_err
    · split
      · exact answersOnce_err
      · split_ifs
        · exact answersOnce_err
        · exact answersOnce_err
        · exact answersOnce_ok

theorem handleDecline_answersOnce :
    AnswersOnce conn w.out (handleDecline env command conn me w).out := by
  unfold handleDecline
  split
  · exact answersOnce_err
  · exact answersOnce_ok

theorem dispatchAnonymous_answersOnce :
    AnswersOnce conn w.out (dispatchAnonymous env command conn w).out := by
  unfold dispatchAnonymous
  split
  · exact handleRegister_answersOnce
  · exact handleLogin_answersOnce
  · exact handleReconnect_answersOnce
  · exact answersOnce_err

end ChatServer
