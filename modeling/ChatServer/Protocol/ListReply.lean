import ChatServer.Protocol.Words

/-! # List replies

A list reply is printed piece by piece into one line buffer, at an offset that
grows by the length each piece would have if the buffer were large enough.
-/

namespace ChatServer

/-- The buffer's string, the running offset, and the offset before each print. -/
structure ListBuf where
  text : Text := []
  off : ℕ := 0
  offsets : List ℕ := []

/-- `off += snprintf(buf + off, sizeof(buf) - off, ...)`. -/
def ListBuf.print (piece : Text) (b : ListBuf) : ListBuf where
  text := snprintf maxLineLen (b.text ++ piece)
  off := b.off + piece.length
  offsets := b.offsets ++ [b.off]

/-- Print all entries. -/
def ListBuf.printAll (entries : List Text) (b : ListBuf) : ListBuf :=
  entries.foldl (fun b entry => b.print entry) b

/-- Print entries until fewer than 32 bytes are left. -/
def ListBuf.printGuarded : List Text → ListBuf → ListBuf
  | [], b => b
  | entry :: entries, b =>
    if maxLineLen - 32 ≤ (b.print entry).off then b.print entry
    else ListBuf.printGuarded entries (b.print entry)

/-- The offset, limit and choice of format that ROOMS and WHO read from their arguments. -/
structure Paging where
  offset : ℤ
  limit : ℤ
  used : Bool

def pagingOf (cmd : Cmd) : Paging where
  offset := match cmd.arg1 with
    | some s => if atoi s < 0 then 0 else atoi s
    | none => 0
  limit := match cmd.arg2 with
    | some s => if atoi s < 0 then 0 else if 1000 < atoi s then 1000 else atoi s
    | none => -1
  used := cmd.arg1.isSome || cmd.arg2.isSome

/-- The offset within a list of `total` entries. -/
def Paging.start (p : Paging) (total : ℕ) : ℕ := if total < p.offset then total else p.offset.toNat

/-- The number of entries on the page. -/
def Paging.count (p : Paging) (total : ℕ) : ℕ :=
  let remaining := total - p.start total
  if p.limit < 0 then remaining else if p.limit < remaining then p.limit.toNat else remaining

/-- The reply to ROOMS or WHO, plain or paginated. -/
def listReply (word : Text) (entries : List Text) (cmd : Cmd) : ListBuf :=
  let p := pagingOf cmd
  if p.used then
    let start := p.start entries.length
    let count := p.count entries.length
    let header := [' '].intercalate [word, decimal entries.length, decimal start, decimal count]
    (ListBuf.printGuarded ((entries.drop start).take count) (ListBuf.print header {})).print ['\n']
  else ((ListBuf.print word {}).printAll entries).print ['\n']

end ChatServer
