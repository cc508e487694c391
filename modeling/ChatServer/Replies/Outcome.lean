import ChatServer.Server.World

/-! # The answer to a command

A command is answered by the first line that its connection is sent.
-/

namespace ChatServer

open World

/-- The first line sent goes to the connection, and is an error. -/
def AnsweredErr (conn : Conn) (outs : List Output) : Prop :=
  ∃ errCode, outs.head? =
    some ⟨conn.fd, conn.channel, { bytes := formatErrReply maxLineLen errCode }⟩

/-- The first line sent goes to the connection, and is OK with a status and perhaps a token. -/
def AnsweredOk (conn : Conn) (status : Text) (outs : List Output) : Prop :=
  ∃ token, outs.head? =
    some ⟨conn.fd, conn.channel, { bytes := formatOkSession maxLineLen status token }⟩

variable {conn : Conn} {w : World} {status errCode token : Text} {outs : List Output}

theorem formatErrReply_head (errCode : Text) :
    (formatErrReply maxLineLen errCode).head? = some 'E' := rfl

theorem formatOkSession_head (status token : Text) :
    (formatOkSession maxLineLen status token).head? = some 'O' := by
  unfold formatOkSession
  split_ifs
  · rfl
  · rfl

theorem AnsweredErr.not_ok (h : AnsweredErr conn outs) : ¬ AnsweredOk conn status outs := by
  obtain ⟨errCode, herr⟩ := h
  rintro ⟨token, hok⟩
  rw [herr] at hok
  have hbytes := congrArg (fun o => o.line.bytes.head?) (Option.some.inj hok)
  simp only [formatErrReply_head, formatOkSession_head] at hbytes
  cases hbytes

theorem answeredErr_replyErr (h : w.out = []) : AnsweredErr conn (w.replyErr conn errCode).out :=
  ⟨errCode, by simp [h]⟩

theorem answeredOk_reply (h : w.out = []) :
    AnsweredOk conn status (w.reply conn (formatOkSession maxLineLen status token)).out :=
  ⟨token, by simp [h]⟩

theorem answeredOk_replyOk (h : w.out = []) : AnsweredOk conn status (w.replyOk conn status).out :=
  ⟨[], by simp [h, formatOkSession, formatOkReply]⟩

theorem AnsweredErr.append {outs' : List Output} (h : AnsweredErr conn outs) :
    AnsweredErr conn (outs ++ outs') := by
  obtain ⟨errCode, herr⟩ := h
  exact ⟨errCode, by rw [List.head?_append, herr]; rfl⟩

theorem AnsweredOk.append {outs' : List Output} (h : AnsweredOk conn status outs) :
    AnsweredOk conn status (outs ++ outs') := by
  obtain ⟨token, hok⟩ := h
  exact ⟨token, by rw [List.head?_append, hok]; rfl⟩

end ChatServer
