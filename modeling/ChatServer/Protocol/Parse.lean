import ChatServer.Protocol.Words

/-! # Command parsing

The two stages of the dispatcher: keyword prefixes of the newer commands
first, in the order the source tests them, then the tokenizer of the older
ones. An argument is a piece of the line; a missing argument is `none`.
-/

namespace ChatServer

/-- The arguments `PARSE_ARGS` cuts out of the rest of a line. -/
def parseArgs (type : CmdType) (rest : Text) : Cmd :=
  match rest.dropWhile (· = ' ') with
  | [] => { type }
  | '\n' :: _ => { type }
  | '\r' :: _ => { type }
  | r =>
    match r.dropWhile (· ≠ ' ') with
    | [] => { type, arg1 := some r }
    | _ :: r₂ =>
      match r₂.dropWhile (· ≠ ' ') with
      | [] => { type, arg1 := some (r.takeWhile (· ≠ ' ')), arg2 := some r₂ }
      | _ :: r₃ =>
        { type
          arg1 := some (r.takeWhile (· ≠ ' '))
          arg2 := some (r₂.takeWhile (· ≠ ' '))
          arg3 := some r₃ }

theorem parseArgs_type (type : CmdType) (rest : Text) : (parseArgs type rest).type = type := by
  unfold parseArgs
  split
  · rfl
  · rfl
  · rfl
  · split
    · rfl
    · split
      · rfl
      · rfl

/-- The rest of a line is at its end: NUL, LF or CR. -/
def atLineEnd : Text → Bool
  | [] => true
  | c :: _ => c = '\n' || c = '\r'

/-- The rest of a line is at its end or at a space. -/
def atBreak : Text → Bool
  | [] => true
  | c :: _ => c = ' ' || c = '\n' || c = '\r'

/-- One test of the pre-parser: a keyword, whether arguments may follow, and the command. -/
structure Keyword where
  word : Text
  takesArgs : Bool
  type : CmdType

/-- The keyword tests in source order. -/
def srijalKeywords : List Keyword :=
  [⟨"LOGOUT_ALL".toList, false, .logoutAll⟩,
   ⟨"STOP_TYPING".toList, false, .stopTyping⟩,
   ⟨"REVOKE_SESSION".toList, true, .revokeSession⟩,
   ⟨"REVOKE SESSION".toList, true, .revokeSession⟩,
   ⟨"CREATE_PRIVATE".toList, true, .createPrivate⟩,
   ⟨"SESSIONS".toList, false, .sessions⟩,
   ⟨"UNBLOCK".toList, true, .unblock⟩,
   ⟨"UNMUTE".toList, true, .unmute⟩,
   ⟨"BLOCK".toList, true, .block⟩,
   ⟨"MUTE".toList, true, .mute⟩,
   ⟨"BAN".toList, true, .ban⟩,
   ⟨"LOGOUT".toList, true, .logout⟩,
   ⟨"TYPING".toList, false, .typing⟩,
   ⟨"READ".toList, true, .read⟩,
   ⟨"DECLINE".toList, true, .decline⟩,
   ⟨"DEMOTE".toList, true, .demote⟩,
   ⟨"INVITE".toList, true, .invite⟩,
   ⟨"ACCEPT".toList, true, .accept⟩]

/-- `strncmp` with the keyword succeeds and the character after it ends the keyword. -/
def Keyword.matches (k : Keyword) (line : Text) : Bool :=
  k.word.isPrefixOf line &&
    (if k.takesArgs then atBreak else atLineEnd) (line.drop k.word.length)

def preParseSrijalCommands (line : Text) : Cmd :=
  match srijalKeywords.find? (·.matches line) with
  | some k =>
    if k.takesArgs then parseArgs k.type (line.drop k.word.length) else { type := k.type }
  | none =>
    if Keyword.matches ⟨"HEALTH".toList, false, .invalid⟩ line then
      { type := .invalid, arg1 := some "HEALTH".toList }
    else if Keyword.matches ⟨"READY".toList, false, .invalid⟩ line then
      { type := .invalid, arg1 := some "READY".toList }
    else { type := .invalid }

/-- The older commands and the type each keyword selects. -/
def serverCommands : List (Text × CmdType) :=
  [("WHO".toList, .who), ("ROOMS".toList, .rooms), ("RECONNECT".toList, .reconnect),
   ("REGISTER".toList, .register), ("LOGIN".toList, .login), ("CREATE".toList, .create),
   ("JOIN".toList, .join), ("LEAVE".toList, .leave), ("KICK".toList, .kick),
   ("PROMOTE".toList, .promote), ("STATUS".toList, .status), ("EDIT".toList, .edit),
   ("DELETE".toList, .delete), ("HISTORY".toList, .history), ("MSG".toList, .msg),
   ("PM".toList, .pm)]

/-- The arguments `parse_incoming_command_server` takes for each command type. -/
def serverArgs (type : CmdType) (rest : Text) : Cmd :=
  let (t₁, r₁) := strtokSpace rest
  let (t₂, r₂) := strtokSpace r₁
  let (t₃, _) := strtokSpace r₂
  match type with
  | .who | .rooms | .register | .login => { type, arg1 := t₁, arg2 := t₂ }
  | .edit | .pm => { type, arg1 := t₁, arg2 := strtokRest r₁ }
  | .history => { type, arg1 := t₁, arg2 := t₂, arg3 := t₃ }
  | .msg => { type, arg1 := strtokRest rest }
  | _ => { type, arg1 := t₁ }

def parseIncomingCommandServer (line : Text) : Cmd :=
  match strtokSpace line with
  | (none, _) => { type := .invalid }
  | (some command, rest) =>
    match serverCommands.lookup command with
    | some type => serverArgs type rest
    | none => { type := .invalid }

/-- The command `process_line` dispatches on. -/
def parseLine (line : Text) : Cmd :=
  let command := preParseSrijalCommands line
  if command.type = .invalid then parseIncomingCommandServer line else command

example : parseLine "ACCEPT lounge".toList = { type := .accept, arg1 := some "lounge".toList } := by
  decide

end ChatServer
