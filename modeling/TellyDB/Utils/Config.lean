import TellyDB.Commands.Arguments
import TellyDB.Lib.ByteMemory
import TellyDB.Lib.Positional
import TellyDB.Resp.Frames
import TellyDB.Utils.Ltoa

/-!
Owns `utils/config.c`: `parse_config` over the bytes of a file, with the `Config` that its setters
write into as memory, and `get_config_string`.

Fields stand where the ABI of 64-bit Linux places them, `int` is stored with its lowest byte first,
and `errno` is not `EINVAL`.
-/

namespace TellyDB.Utils.Configuration

open Commands (isSpace cString)
open Lib.ByteMemory Lib.Positional Resp

/-! ## The fields -/

/-- `Config`, as its users read it. -/
structure Config where
  port : Nat
  maxClients : Nat
  maxTransactionBlocks : Nat
  allowedLogLevels : Nat
  maxLogLines : Int
  logFile : Bytes
  dataFile : Bytes
  databaseName : Bytes
  autosaveSeconds : Nat
  autosaveCount : Nat
  expireSeconds : Nat
  expireSize : Nat
  tls : Bool
  cert : Bytes
  privateKey : Bytes
deriving DecidableEq

/-- A member of the struct. -/
structure Field where
  offset : Nat
  size : Nat
deriving DecidableEq

namespace Field

def port : Field := ⟨0, 2⟩
def maxClients : Field := ⟨2, 2⟩
def maxTransactionBlocks : Field := ⟨4, 4⟩
def allowedLogLevels : Field := ⟨8, 1⟩
def maxLogLines : Field := ⟨12, 4⟩
def logFile : Field := ⟨16, 49⟩
def dataFile : Field := ⟨65, 49⟩
def databaseName : Field := ⟨114, 65⟩
def autosave : Field := ⟨180, 8⟩
def autosaveSeconds : Field := ⟨180, 4⟩
def autosaveCount : Field := ⟨184, 4⟩
def expireSeconds : Field := ⟨188, 4⟩
def expireSize : Field := ⟨192, 4⟩
def tls : Field := ⟨196, 1⟩
def cert : Field := ⟨197, 49⟩
def privateKey : Field := ⟨246, 49⟩

/-- An unsigned number. -/
def number (field : Field) (memory : Nat → UInt8) : Nat :=
  ofLittleEndian (load memory field.offset field.size)

/-- A C string. -/
def string (field : Field) (memory : Nat → UInt8) : Bytes :=
  cString (load memory field.offset field.size)

end Field

/-- The `int32_t` of these 32 bits. -/
def signed (word : Nat) : Int := if word < 2 ^ 31 then word else (word : Int) - 2 ^ 32

/-- The struct that lies in the memory. -/
def readConfig (memory : Nat → UInt8) : Config where
  port := Field.port.number memory
  maxClients := Field.maxClients.number memory
  maxTransactionBlocks := Field.maxTransactionBlocks.number memory
  allowedLogLevels := Field.allowedLogLevels.number memory
  maxLogLines := signed (Field.maxLogLines.number memory)
  logFile := Field.logFile.string memory
  dataFile := Field.dataFile.string memory
  databaseName := Field.databaseName.string memory
  autosaveSeconds := Field.autosaveSeconds.number memory
  autosaveCount := Field.autosaveCount.number memory
  expireSeconds := Field.expireSeconds.number memory
  expireSize := Field.expireSize.number memory
  tls := Field.tls.number memory != 0
  cert := Field.cert.string memory
  privateKey := Field.privateKey.string memory

/-- `default_conf`. -/
def defaultConf : Config where
  port := 6379
  maxClients := 128
  maxTransactionBlocks := 262144
  allowedLogLevels := 15
  maxLogLines := 128
  logFile := text ".tellylog"
  dataFile := text ".tellydb"
  databaseName := text "telly"
  autosaveSeconds := 60
  autosaveCount := 100000
  expireSeconds := 60
  expireSize := 20
  tls := false
  cert := []
  privateKey := []

/-! ## Numbers -/

/-- What `strtoull` and `strtoll` find: whether a minus stands before the digits, what the digits
denote, and where `end` points. -/
def scanNumber (string : Bytes) : Option (Bool × Nat × Bytes) :=
  let string := string.dropWhile isSpace
  let negative := string.head? == some 0x2d
  let string := if negative || string.head? == some 0x2b then string.tail else string
  let digits := string.takeWhile isDigitByte
  if digits = [] then none
  else some (negative, literalValue digits, string.dropWhile isDigitByte)

/-- `strtoull` of base ten. -/
def strtoull (string : Bytes) : Nat × Bytes :=
  match scanNumber string with
  | none => (0, string)
  | some (negative, number, rest) =>
      if number < 2 ^ 64 then (if negative then (2 ^ 64 - number) % 2 ^ 64 else number, rest)
      else (2 ^ 64 - 1, rest)

/-- `strtoll` of base ten. -/
def strtoll (string : Bytes) : Int × Bytes :=
  match scanNumber string with
  | none => (0, string)
  | some (negative, number, rest) =>
      (if negative then max (-2 ^ 63) (-(number : Int)) else min (2 ^ 63 - 1) (number : Int), rest)

/-! ## Setters -/

/-- A store of a setter. -/
structure Store where
  address : Nat
  bytes : Bytes
deriving DecidableEq

/-- The memory behind some stores. -/
def storeAll (memory : Nat → UInt8) (stores : List Store) : Nat → UInt8 :=
  stores.foldl (fun memory written => store memory written.address written.bytes) memory

/-- `set_uint`, which stores a `uint64_t`. -/
def setUint (value : Nat) (buf : Bytes) : List Store × Bool :=
  if buf.head? = some 0x2d then ([], false)
  else
    let converted := strtoull buf
    ([⟨value, littleEndian 8 converted.1⟩], converted.2 = [])

/-- `set_int`, which stores an `int64_t`. -/
def setInt (value : Nat) (buf : Bytes) : List Store × Bool :=
  let converted := strtoll buf
  ([⟨value, littleEndian 8 (converted.1 % 2 ^ 64).toNat⟩], converted.2 = [])

/-- `set_autosave`. -/
def setAutosave (value : Nat) (buf : Bytes) : List Store × Bool :=
  let seconds := strtoll buf
  let count := strtoll seconds.2
  ([⟨value, littleEndian 4 (seconds.1 % 2 ^ 32).toNat⟩,
    ⟨value + 4, littleEndian 4 (count.1 % 2 ^ 32).toNat⟩], count.2 = [])

/-- `set_str`. -/
def setStr (value : Nat) (buf : Bytes) : List Store × Bool := ([⟨value, buf ++ [0]⟩], true)

/-- `set_bool`. -/
def setBool (value : Nat) (buf : Bytes) : List Store × Bool :=
  if buf = text "true" then ([⟨value, [1]⟩], true)
  else if buf = text "false" then ([⟨value, [0]⟩], true)
  else ([], false)

/-- `log_levels_map`. -/
def logLevelsMap : List (UInt8 × UInt8) := [(0x69, 1), (0x65, 4), (0x77, 2), (0x64, 8)]

/-- `set_allowed_log_levels`, with what stands in `*log_levels`. -/
def setAllowedLogLevels (value : Nat) (logLevels : UInt8) : Bytes → List Store × Bool
  | [] => ([], true)
  | id :: buf =>
      match logLevelsMap.find? fun level => level.1 == id with
      | none => ([], false)
      | some level =>
          let logLevels := logLevels ||| level.2
          let later := setAllowedLogLevels value logLevels buf
          (⟨value, [logLevels]⟩ :: later.1, later.2)

/-- The setter of an entry. -/
inductive Setter where
  | uint
  | int
  | allowedLogLevels
  | autosave
  | str
  | bool
deriving DecidableEq

/-- What a setter stores at `value`, and whether it takes what is in `buf`. -/
def Setter.run (memory : Nat → UInt8) (value : Nat) (buf : Bytes) : Setter → List Store × Bool
  | .uint => setUint value buf
  | .int => setInt value buf
  | .allowedLogLevels => setAllowedLogLevels value (memory value) buf
  | .autosave => setAutosave value buf
  | .str => setStr value buf
  | .bool => setBool value buf

/-- `ConfigEntry`. -/
structure ConfigEntry where
  key : String
  field : Field
  setter : Setter
deriving DecidableEq

/-- `entries` of `parse_config`. -/
def entries : List ConfigEntry :=
  [⟨"port", .port, .uint⟩,
    ⟨"max_clients", .maxClients, .uint⟩,
    ⟨"max_transaction_blocks", .maxTransactionBlocks, .uint⟩,
    ⟨"allowed_log_levels", .allowedLogLevels, .allowedLogLevels⟩,
    ⟨"max_log_lines", .maxLogLines, .int⟩,
    ⟨"log_file", .logFile, .str⟩,
    ⟨"save", .autosave, .autosave⟩,
    ⟨"data_file", .dataFile, .str⟩,
    ⟨"database_name", .databaseName, .str⟩,
    ⟨"expire_check_batch_size", .expireSize, .uint⟩,
    ⟨"expire_check_interval_secs", .expireSeconds, .uint⟩,
    ⟨"tls", .tls, .bool⟩,
    ⟨"cert", .cert, .str⟩,
    ⟨"private_key", .privateKey, .str⟩]

/-! ## Parsing -/

/-- Why `parse_config` does not return: it logs an error and exits, or it writes outside of
`buf`. -/
inductive Failure where
  | exits (message : Bytes)
  | outside
deriving DecidableEq

/-- `strncat(buf, &c, 1)`, where `buf` has 49 bytes. -/
def strncat (buf : Bytes) (c : UInt8) : Except Failure Bytes :=
  if c = 0 then .ok buf
  else if buf.length < 48 then .ok (buf ++ [c])
  else .error .outside

/-- `pass_line`: what it leaves of the file. -/
def passLine : Bytes → Bytes
  | [] => []
  | c :: rest => if c = 0x0a then rest else passLine rest

/-- `read_value`: what comes into `buf`, and what it leaves of the file. -/
def readValue : Bytes → Bytes → Except Failure (Bytes × Bytes)
  | [], buf => .ok (buf, [])
  | c :: rest, buf =>
      if c = 0x0a then .ok (buf, rest)
      else if c ≠ 0x20 then do
        let buf ← strncat buf c
        readValue rest buf
      else readValue rest buf

/-- `parse_config` while it runs, with the fields that were set so far and what was stored for
them. -/
structure Parsing where
  buf : Bytes
  memory : Nat → UInt8
  writes : List (Field × Store)

/-- The call of the setter. -/
def ConfigEntry.set (entry : ConfigEntry) (buf : Bytes) (parsing : Parsing) :
    Except Failure Parsing :=
  let called := entry.setter.run parsing.memory entry.field.offset buf
  if called.2 then .ok {
      buf := []
      memory := storeAll parsing.memory called.1
      writes := parsing.writes ++ called.1.map fun written => (entry.field, written) }
  else .error (.exits (text "Cannot parse configuration, invalid value for '" ++ text entry.key ++
    text "'."))

theorem length_passLine_le (file : Bytes) : (passLine file).length ≤ file.length := by
  induction file with
  | nil => exact Nat.le_refl 0
  | cons c rest inductionHypothesis =>
      rw [passLine, List.length_cons]
      split
      · exact Nat.le_succ _
      · exact Nat.le_succ_of_le inductionHypothesis

theorem readValue_rest {file buf value rest : Bytes}
    (read : readValue file buf = .ok (value, rest)) : rest = passLine file := by
  induction file generalizing buf with
  | nil =>
      cases read
      rfl
  | cons c others inductionHypothesis =>
      rw [readValue] at read
      rw [passLine]
      split at read
      · next ends =>
          cases read
          rw [if_pos ends]
      · next inside =>
          rw [if_neg inside]
          split at read
          · cases catted : strncat buf c with
            | error failure =>
                rw [catted] at read
                cases read
            | ok longer =>
                rw [catted] at read
                exact inductionHypothesis read
          · exact inductionHypothesis read

/-- The loop of `parse_config`. At the end of the file the lowest byte of `EOF` comes into `buf`. -/
def parseLoop (file : Bytes) (parsing : Parsing) : Except Failure Parsing :=
  match file with
  | [] => do
      let buf ← strncat parsing.buf 0xff
      .ok { parsing with buf }
  | c :: rest =>
      if c = 0x23 ∨ c = 0x0a then parseLoop (passLine rest) parsing
      else if c = 0x3d then
        match entries.find? fun entry => parsing.buf = text entry.key with
        | none => .error (.exits (text "Cannot parse configuration, invalid key: '" ++
            parsing.buf ++ text "'"))
        | some entry =>
            match _read : readValue rest [] with
            | .error failure => .error failure
            | .ok (buf, after) => do
                let parsing ← entry.set buf parsing
                parseLoop after parsing
      else if c = 0x20 then parseLoop rest parsing
      else do
        let buf ← strncat parsing.buf c
        parseLoop rest { parsing with buf }
termination_by file.length
decreasing_by
  all_goals simp only [List.length_cons]
  · exact Nat.lt_succ_of_le (length_passLine_le rest)
  · rw [readValue_rest _read]
    exact Nat.lt_succ_of_le (length_passLine_le rest)
  · exact Nat.lt_succ_self _
  · exact Nat.lt_succ_self _

/-- `'%s' in configuration violates limitations: %s`. -/
def violates (key limits : String) : Failure :=
  .exits (text "'" ++ text key ++ text "' in configuration violates limitations: " ++ text limits)

/-- The limits that `parse_config` checks at its end. -/
def checkLimits (conf : Config) : Except Failure Config :=
  if 65535 < conf.maxClients then .error (violates "max_clients" "value <= 65535")
  else if 4294967295 < conf.maxTransactionBlocks then
    .error (violates "max_transaction_blocks" "value <= 4294967295")
  else if 4294967295 < conf.expireSeconds then
    .error (violates "expire_check_interval_secs" "value <= 4294967295")
  else if 4294967295 < conf.expireSize then
    .error (violates "expire_check_batch_size" "value <= 4294967295")
  else if 2147483647 < conf.maxLogLines ∨ (conf.maxLogLines ≤ 0 ∧ conf.maxLogLines ≠ -1) then
    .error (violates "max_log_lines" "0 < value <= 2147483647")
  else .ok conf

/-- `conf` and `buf` at the start. -/
def cleared : Parsing := ⟨[], fun _ => 0, []⟩

/-- `parse_config`: the struct, with what was stored on the way. -/
def parseConfig (file : Bytes) : Except Failure (Config × List (Field × Store)) := do
  let parsing ← parseLoop file cleared
  let conf ← checkLimits (readConfig parsing.memory)
  .ok (conf, parsing.writes)

/-! ## Printing -/

/-- A line of a configuration: a comment behind its `#`, a blank line, or a key, some spaces, an
equals sign and what stands behind it. -/
inductive ConfigLine where
  | comment (words : Bytes)
  | blank
  | setting (entry : ConfigEntry) (spaces : Nat) (value : Bytes)
deriving DecidableEq

/-- The bytes of a line. -/
def ConfigLine.bytes : ConfigLine → Bytes
  | .comment words => 0x23 :: words ++ [0x0a]
  | .blank => [0x0a]
  | .setting entry spaces value =>
      text entry.key ++ (List.replicate spaces 0x20 ++ 0x3d :: (value ++ [0x0a]))

/-- `get_allowed_log_levels`. -/
def getAllowedLogLevels (value : Nat) : Bytes :=
  (logLevelsMap.filter fun level => UInt8.ofNat value &&& level.2 ≠ 0).map Prod.fst

/-- `%d` of a 32-bit number. -/
def printSigned (word : Nat) : Bytes := numeral (signed word)

/-- The lines of `get_config_string`. A line of a key is printed with a space on either side of
the equals sign. -/
def configLines (conf : Config) : List ConfigLine :=
  let comment (words : String) := ConfigLine.comment (text words)
  let setting (key : String) (field : Field) (setter : Setter) (value : Bytes) :=
    ConfigLine.setting ⟨key, field, setter⟩ 1 (0x20 :: value)
  [comment " TCP server port",
    setting "port" .port .uint (decimal conf.port), .blank,
    comment " Specifies max connectable client count, higher values may cause higher resource usage",
    setting "max_clients" .maxClients .uint (decimal conf.maxClients), .blank,
    comment " Specifies max storable transaction block count, higher values may cause higher resource usage",
    comment " 2^n values are possible. If it is not 2^n, it will be rounded down.",
    setting "max_transaction_blocks" .maxTransactionBlocks .uint
      (decimal conf.maxTransactionBlocks), .blank,
    comment " Allowed log levels:",
    comment " w = warning",
    comment " i = information",
    comment " e = error",
    comment " d = debug", .blank,
    comment " Order of keys does not matter",
    setting "allowed_log_levels" .allowedLogLevels .allowedLogLevels
      (getAllowedLogLevels conf.allowedLogLevels), .blank,
    comment " Specifies maximum line count of logs will be saved to log file, to make undetermined, change it to -1.",
    comment " If the log file contains more log lines than this value, will not be deleted old logs and will not be saved new logs.",
    comment " MAX_LOG_LINES * (FILE BLOCK SIZE [512, 4096 or a power of 2] + 1) bytes will be allocated, so be careful",
    setting "max_log_lines" .maxLogLines .int (numeral conf.maxLogLines), .blank,
    comment " Specifies log file where logs will be saved",
    setting "log_file" .logFile .str conf.logFile, .blank,
    comment " If K keys are changed on S seconds, saves database",
    comment " save = S K",
    comment " If seconds is -1, this feature will be deactivated.",
    setting "save" .autosave .autosave
      (decimal conf.autosaveSeconds ++ 0x20 :: decimal conf.autosaveCount), .blank,
    comment " Specifies database file where data will be saved",
    setting "data_file" .dataFile .str conf.dataFile, .blank,
    comment " Specifies default database name, it will be created on first startup of server and deletion of all databases",
    comment " On a client connection to the server, the client will be paired with this database",
    comment " This length must be less than or equal to 64",
    setting "database_name" .databaseName .str conf.databaseName, .blank,
    comment " Randomly `expire_check_batch_size` keys will be checked",
    comment " if they have expired every `expire_check_interval_secs` seconds.",
    setting "expire_check_batch_size" .expireSize .uint (printSigned conf.expireSize),
    setting "expire_check_interval_secs" .expireSeconds .uint (printSigned conf.expireSeconds),
    .blank,
    comment " Enables/disables creating TLS server",
    comment "",
    comment " If it is enabled:",
    comment " CERT specifies certificate file path of TLS server",
    comment " PRIVATE_KEY specifies private key file path of TLS server",
    comment " TLS value must be true or false",
    comment " File paths length must be less than or equal to 48",
    setting "tls" .tls .bool (text (if conf.tls then "true" else "false")),
    setting "cert" .cert .str conf.cert,
    setting "private_key" .privateKey .str conf.privateKey]

/-- `get_config_string`. -/
def getConfigString (conf : Config) : Bytes := (configLines conf).flatMap ConfigLine.bytes

end TellyDB.Utils.Configuration
