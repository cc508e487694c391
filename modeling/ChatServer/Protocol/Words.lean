import ChatServer.Core.Text

/-! # Protocol words

Command types, the bounds of the protocol, and the reply, status and error
words that the server puts on the wire.
-/

namespace ChatServer

inductive CmdType where
  | register | login | reconnect | create | join | msg | pm | who | rooms | leave | kick
  | promote | status | edit | delete | history | logout | logoutAll | sessions
  | revokeSession | read | typing | stopTyping | block | unblock | mute | unmute | ban
  | demote | createPrivate | invite | accept | decline | invalid
  deriving DecidableEq, Repr

/-- A parsed command line. -/
structure Cmd where
  type : CmdType
  arg1 : Option Text := none
  arg2 : Option Text := none
  arg3 : Option Text := none
  deriving DecidableEq, Repr

def maxLineLen : ℕ := 512
def maxUsernameLen : ℕ := 32
def maxRoomNameLen : ℕ := 32
def maxTextLen : ℕ := 400

def replyOk : Text := "OK".toList
def replyErr : Text := "ERR".toList
def replyNotice : Text := "NOTICE".toList
def replyMsg : Text := "MSG".toList
def replyPmFrom : Text := "PM_FROM".toList
def replyWho : Text := "WHO_REPLY".toList
def replyRooms : Text := "ROOMS_REPLY".toList
def replyHistory : Text := "HISTORY_REPLY".toList
def replyEdited : Text := "MESSAGE_EDITED".toList
def replyDeleted : Text := "MESSAGE_DELETED".toList
def replySessions : Text := "SESSIONS_REPLY".toList
def replyReadReceipt : Text := "READ_RECEIPT".toList
def replyTyping : Text := "TYPING".toList
def replyStopTyping : Text := "STOP_TYPING".toList
def replyLogout : Text := "LOGOUT_OK".toList
def replyInvite : Text := "INVITE".toList

def statusOnline : Text := "ONLINE".toList
def statusAway : Text := "AWAY".toList
def statusBusy : Text := "BUSY".toList

def okRegistered : Text := "REGISTERED".toList
def okLoggedIn : Text := "LOGGED_IN".toList
def okReconnected : Text := "RECONNECTED".toList
def okCreated : Text := "CREATED".toList
def okJoined : Text := "JOINED".toList
def okLeft : Text := "LEFT".toList
def okSent : Text := "SENT".toList
def okKicked : Text := "KICKED".toList
def okPromoted : Text := "PROMOTED".toList
def okStatusSet : Text := "STATUS_SET".toList
def okBlocked : Text := "BLOCKED".toList
def okUnblocked : Text := "UNBLOCKED".toList
def okMuted : Text := "MUTED".toList
def okUnmuted : Text := "UNMUTED".toList
def okBanned : Text := "BANNED".toList
def okDemoted : Text := "DEMOTED".toList
def okInvited : Text := "INVITED".toList
def okInviteDeclined : Text := "INVITE_DECLINED".toList
def okCreatedPrivate : Text := "CREATED_PRIVATE".toList

def errServerError : Text := "SERVER_ERROR".toList
def errServerShutdown : Text := "SERVER_SHUTDOWN".toList
def errInvalidCommand : Text := "INVALID_COMMAND".toList
def errUsernameTaken : Text := "USERNAME_TAKEN".toList
def errWrongPassword : Text := "WRONG_PASSWORD".toList
def errInvalidUsername : Text := "INVALID_USERNAME".toList
def errNotRegistered : Text := "NOT_REGISTERED".toList
def errAlreadyRegistered : Text := "ALREADY_REGISTERED".toList
def errUnknownUser : Text := "UNKNOWN_USER".toList
def errMaxClientCountReached : Text := "MAX_CLIENT_COUNT_REACHED".toList
def errInvalidClient : Text := "INVALID_CLIENT".toList
def errInvalidRoomName : Text := "INVALID_ROOM_NAME".toList
def errRoomNotFound : Text := "ROOM_NOT_FOUND".toList
def errRoomAlreadyExists : Text := "ROOM_ALREADY_EXISTS".toList
def errMaxRoomCountReached : Text := "MAX_ROOM_COUNT_REACHED".toList
def errNotInRoom : Text := "NOT_IN_ROOM".toList
def errRoomNull : Text := "ROOM_NULL".toList
def errRoomMaxMemberCountReached : Text := "ROOM_MAX_MEMBERS_REACHED".toList
def errAlreadyInARoom : Text := "ALREADY_IN_A_ROOM".toList
def errNotAdmin : Text := "NOT_ADMIN".toList
def errCannotKickSelf : Text := "CANNOT_KICK_SELF".toList
def errUserNotInRoom : Text := "USER_NOT_IN_ROOM".toList
def errInvalidStatus : Text := "INVALID_STATUS".toList
def errRateLimited : Text := "RATE_LIMITED".toList
def errEmptyMessage : Text := "EMPTY_MESSAGE".toList
def errInvalidToken : Text := "INVALID_TOKEN".toList
def errSessionExpired : Text := "SESSION_EXPIRED".toList
def errMsgNotFound : Text := "MSG_NOT_FOUND".toList
def errNotAuthorized : Text := "NOT_AUTHORIZED".toList
def errMsgDeleted : Text := "MSG_DELETED".toList
def errSessionNotFound : Text := "SESSION_NOT_FOUND".toList
def errUserNotBlocked : Text := "USER_NOT_BLOCKED".toList
def errUserNotMuted : Text := "USER_NOT_MUTED".toList
def errNotRoomOwner : Text := "NOT_ROOM_OWNER".toList
def errCannotDemoteself : Text := "CANNOT_DEMOTE_SELF".toList
def errInviteFailed : Text := "INVITE_FAILED".toList
def errNotInvited : Text := "NOT_INVITED".toList
def errInvalidRole : Text := "INVALID_ROLE".toList

end ChatServer
