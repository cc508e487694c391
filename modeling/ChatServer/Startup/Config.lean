import Mathlib.Data.List.DropRight
import ChatServer.Connection.InPlace
import ChatServer.Library.Windows
import ChatServer.Registry.Basic

/-! # The configuration file

`config_load` sets the defaults and reads the file through a window of 512
bytes. The conversion `atof` is left to the C library. A configuration is
memory that the caller provides: what the loader does not write stays.
-/

namespace ChatServer

open Library

/-- A `char` array of `n` bytes. -/
structure CharArray (n : ℕ) where
  bytes : List Char
  length_eq : bytes.length = n

namespace CharArray

variable {n : ℕ}

/-- The C string in the array, or all its bytes if none of them is NUL. -/
def str (a : CharArray n) : Text := cstr a.bytes

/-- Write a NUL. -/
def terminate (a : CharArray n) (i : ℕ) : CharArray n :=
  ⟨a.bytes.set i '\x00', by rw [List.length_set, a.length_eq]⟩

/-- `strncpy(a, s, sizeof(a) - 1)`, which pads with NULs and leaves the last byte. -/
def copy (a : CharArray n) (s : Text) : CharArray n where
  bytes := s.take (n - 1) ++ List.replicate (n - 1 - s.length) '\x00' ++ a.bytes.drop (n - 1)
  length_eq := by
    have h := a.length_eq
    simp only [List.length_append, List.length_take, List.length_replicate, List.length_drop]
    omega

end CharArray

/-- `server_config_t`. -/
structure ServerConfig (D : Type*) where
  port : ℤ
  threadPoolSize : ℤ
  maxClients : ℤ
  maxRooms : ℤ
  maxMembers : ℤ
  historySize : ℤ
  rateBucketMax : ℤ
  rateRefillRate : D
  rateMsgCost : ℤ
  tlsCert : CharArray 256
  tlsKey : CharArray 256
  poolShrinkIdleSec : ℤ
  poolMinThreads : ℤ
  logLevel : CharArray 16
  logFile : CharArray 256

/-- Skip white space at both ends. -/
def trim (buf : Text) : Text := (buf.dropWhile isSpace).rdropWhile isSpace

/-- `fgets` with a buffer of the given size; `none` at the end of the file. -/
def fgets (size : ℕ) (stream : List Char) : Option (List Char × List Char) :=
  if stream = [] then none else some (readPiece '\n' (size - 1) stream)

variable {D : Type*} [One D] (atof : Text → D)

namespace ServerConfig

/-- The compile-time defaults. -/
def setDefaults (cfg : ServerConfig D) : ServerConfig D where
  port := 8888
  threadPoolSize := 16
  maxClients := cfgDefaultMaxClients
  maxRooms := cfgDefaultMaxRooms
  maxMembers := cfgDefaultMaxMembers
  historySize := cfgDefaultHistorySize
  rateBucketMax := 5
  rateRefillRate := 1
  rateMsgCost := 1
  tlsCert := (cfg.tlsCert.copy "server.crt".toList).terminate 255
  tlsKey := (cfg.tlsKey.copy "server.key".toList).terminate 255
  poolShrinkIdleSec := 30
  poolMinThreads := 2
  logLevel := (cfg.logLevel.copy "INFO".toList).terminate 15
  logFile := cfg.logFile.terminate 0

/-- The comparisons of the key, in source order. -/
def assign (key val : Text) (cfg : ServerConfig D) : ServerConfig D :=
  if key = "port".toList then { cfg with port := atoi val }
  else if key = "thread_pool_size".toList then { cfg with threadPoolSize := atoi val }
  else if key = "max_clients".toList then { cfg with maxClients := atoi val }
  else if key = "max_rooms".toList then { cfg with maxRooms := atoi val }
  else if key = "max_members".toList then { cfg with maxMembers := atoi val }
  else if key = "history_size".toList then { cfg with historySize := atoi val }
  else if key = "rate_bucket_max".toList then { cfg with rateBucketMax := atoi val }
  else if key = "rate_refill_rate".toList then { cfg with rateRefillRate := atof val }
  else if key = "rate_msg_cost".toList then { cfg with rateMsgCost := atoi val }
  else if key = "tls_cert".toList then { cfg with tlsCert := cfg.tlsCert.copy val }
  else if key = "tls_key".toList then { cfg with tlsKey := cfg.tlsKey.copy val }
  else if key = "pool_shrink_idle_sec".toList then { cfg with poolShrinkIdleSec := atoi val }
  else if key = "pool_min_threads".toList then { cfg with poolMinThreads := atoi val }
  else if key = "log_level".toList then { cfg with logLevel := cfg.logLevel.copy val }
  else if key = "log_file".toList then { cfg with logFile := cfg.logFile.copy val }
  else cfg

/-- The body of the loop, on the string in the buffer. -/
def loadLine (line : Text) (cfg : ServerConfig D) : ServerConfig D :=
  let raw := trim line
  if raw = [] ∨ raw.head? = some '#' ∨ raw.head? = some '[' then cfg
  else if '=' ∉ raw then cfg
  else
    cfg.assign atof (trim (raw.takeWhile (· ≠ '='))) (trim (raw.dropWhile (· ≠ '=')).tail)

/-- The loop over the file; every round reads at least one byte. -/
def loadLoop : ℕ → List Char → ServerConfig D → ServerConfig D
  | 0, _, cfg => cfg
  | fuel + 1, stream, cfg =>
    match fgets 512 stream with
    | none => cfg
    | some (line, rest) => loadLoop fuel rest (cfg.loadLine atof (cstr line))

end ServerConfig

/-- `config_load`; a file that cannot be opened has no content. -/
def configLoad (content : Option (List Char)) (cfg : ServerConfig D) : ℤ × ServerConfig D :=
  let cfg := cfg.setDefaults
  match content with
  | none => (-1, cfg)
  | some stream => (0, cfg.loadLoop atof stream.length stream)

end ChatServer
