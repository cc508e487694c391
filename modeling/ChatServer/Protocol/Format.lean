import ChatServer.Protocol.Words

/-! # Reply formatting

Each formatter prints one line into a buffer of the given size.
-/

namespace ChatServer

/-- Words joined by single spaces and ended by a newline. -/
def lineOf (words : List Text) : Text := [' '].intercalate words ++ ['\n']

def formatOkReply (outSize : ℕ) (status : Text) : Text :=
  snprintf outSize (lineOf [replyOk, status])

def formatOkSession (outSize : ℕ) (status token : Text) : Text :=
  if token = [] then snprintf outSize (lineOf [replyOk, status])
  else snprintf outSize (lineOf [replyOk, status, token])

def formatErrReply (outSize : ℕ) (errCode : Text) : Text :=
  snprintf outSize (lineOf [replyErr, errCode])

def formatNotice (outSize : ℕ) (user action room : Text) : Text :=
  snprintf outSize (lineOf [replyNotice, user, action, room])

def formatMsgReply (outSize : ℕ) (sender text : Text) : Text :=
  snprintf outSize (lineOf [replyMsg, sender, text])

def formatPmReply (outSize : ℕ) (sender text : Text) : Text :=
  snprintf outSize (lineOf [replyPmFrom, sender, text])

def formatMsgReplyId (outSize : ℕ) (msgId : ℤ) (sender text : Text) : Text :=
  snprintf outSize (lineOf [replyMsg, decimal msgId, sender, text])

def formatEditedReply (outSize : ℕ) (msgId : ℤ) (newText : Text) : Text :=
  snprintf outSize (lineOf [replyEdited, decimal msgId, newText])

def formatDeletedReply (outSize : ℕ) (msgId : ℤ) : Text :=
  snprintf outSize (lineOf [replyDeleted, decimal msgId])

end ChatServer
