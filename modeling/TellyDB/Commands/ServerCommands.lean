import TellyDB.Commands.SessionCommands

/-!
Owns the commands that neither read keys nor a session: those of `commands/generic/` on the server
itself and the ones of `commands/database/` that save.

What the system and the rest of the server tell them is an `Environment`.
-/

namespace TellyDB.Server

open Resp

/-- `BackgroundSavingStatus`. -/
inductive BackgroundSavingStatus where
  | alreadySaving
  | threadFailed
  | successful
deriving DecidableEq

/-- The answers of `time`, `clock_gettime`, `stat`, `save_data`, `bg_save` and of the command table,
and the texts of `get_section`. -/
structure Environment where
  time : Option Nat
  age : Nat → Nat
  realtime : Option (Nat × Nat)
  lastSave : Option Nat
  saved : Bool
  backgroundSave : BackgroundSavingStatus
  commandNames : List Bytes
  commandDocs : ProtocolVersion → Bytes
  serverSection : Bytes
  clientsSection : Bytes

variable {σ D : Type} (environment : Environment)

/-- A text in `write_buf`. -/
def Response.written (bytes : Bytes) : Response := ⟨bytes, true⟩

/-- `PASS_NO_CLIENT(entry->client)` at the start of a handler that leaves the databases alone. -/
def forClient (permissions : Permissions)
    (reply : ProtocolVersion → List Bytes → Option Response) : DataCommand σ D where
  permissions := permissions
  run := fun entry databases =>
    match entry.protover with
    | none => some (databases, Response.empty)
    | some protover => (reply protover entry.args).map fun response => (databases, response)

def timeFailed : Response :=
  Response.literal (respErrorMessage "time() system call is failed")

/-- `AGE`. -/
def ageReply : Response :=
  match environment.time with
  | none => timeFailed
  | some time => .written (createRespInteger (environment.age time))

/-- `TIME`. -/
def timeReply : Response :=
  match environment.realtime with
  | none => .literal (respErrorMessage "clock_gettime() system call is failed")
  | some time => .written
      (text "*2" ++ crlf ++ createRespInteger time.1 ++ createRespInteger time.2)

/-- `LASTSAVE`. -/
def lastsaveReply : Response :=
  match environment.lastSave with
  | none => .literal (respErrorMessage "ERROR")
  | some time => .written (createRespInteger time)

/-- `SAVE`. -/
def saveReply : Response :=
  match environment.time with
  | none => timeFailed
  | some _ =>
      if environment.saved then .literal respOk
      else .literal (respErrorMessage "Saving data is failed")

/-- `BGSAVE`, which answers without a look at its client. -/
def bgsaveReply : Response :=
  match environment.time with
  | none => timeFailed
  | some _ =>
      match environment.backgroundSave with
      | .alreadySaving =>
          .literal (respErrorMessage "Saving process is already active in background")
      | .threadFailed =>
          .literal (respErrorMessage "Cannot open external background saving thread")
      | .successful => .literal respOk

/-- `ECHO`. -/
def echoReply (args : List Bytes) : Response :=
  match args with
  | [message] => .written (createRespString message)
  | _ => .literal (wrongArgumentError "ECHO")

/-- `PING`. -/
def pingReply (args : List Bytes) : Response :=
  match args with
  | [] => .literal (respOkMessage "PONG")
  | [message] => .written (createRespString message)
  | _ => .literal (wrongArgumentError "PING")

/-- `COMMAND`. -/
def commandReply (protover : ProtocolVersion) (args : List Bytes) : Response :=
  match args with
  | [] => .literal (missingSubcommandError "COMMAND")
  | argument :: _ =>
      let subcommand := toUppercase argument
      if subcommand = text "DOCS" then .written (environment.commandDocs protover)
      else if subcommand = text "LIST" then
        .written (text "*" ++ decimal environment.commandNames.length ++ crlf ++
          environment.commandNames.flatMap fun name => text "+" ++ name ++ crlf)
      else if subcommand = text "COUNT" then
        .written (createRespInteger environment.commandNames.length)
      else .literal (invalidSubcommandError "COMMAND")

/-- `get_section`. -/
def getSection (name : Bytes) : Option Bytes :=
  if name = text "server" then some environment.serverSection
  else if name = text "clients" then some environment.clientsSection
  else none

/-- The loop of `INFO` over the names, with what is in `buf` so far and whether a name is invalid.
Nothing bounds what is written into `section[2048]` and `buf[8192]`, which end in a NUL. -/
def collectSections : Bytes → List Bytes → Option (Option Bytes)
  | buf, [] => some (some buf)
  | buf, name :: rest =>
      match getSection environment name with
      | none => some none
      | some content =>
          let buf := buf ++ content ++ (if rest = [] then [] else crlf)
          if content.length < 2048 ∧ buf.length < 8192 then collectSections buf rest else none

/-- `INFO`, which describes the server and the clients without arguments. -/
def infoReply (args : List Bytes) : Option Response := do
  let names := if args = [] then [text "server", text "clients"] else args
  match ← collectSections environment [] names with
  | none => some (.literal (respErrorMessage "Invalid section name"))
  | some buf => some (.written (text "$" ++ decimal (buf.length % 2 ^ 16) ++ crlf ++ buf ++ crlf))

/-- The commands that work on no key. -/
inductive ServerCommand where
  | age | auth | bgsave | client | command | discard | echo | exec | hello | info | lastsave
  | multi | ping | pwd | save | time
deriving DecidableEq

/-- The record of such a command. -/
def ServerCommand.record : ServerCommand → Command σ D
  | auth => .auth
  | client => .client
  | discard => .discard
  | exec => .exec
  | hello => .hello
  | multi => .multi
  | pwd => .pwd
  | age => .data (forClient Permission.none fun _ _ => some (ageReply environment))
  | command => .data (forClient Permission.none fun protover args =>
      some (commandReply environment protover args))
  | echo => .data (forClient Permission.none fun _ args => some (echoReply args))
  | info => .data (forClient Permission.none fun _ => infoReply environment)
  | lastsave => .data (forClient Permission.server fun _ _ => some (lastsaveReply environment))
  | ping => .data (forClient Permission.none fun _ args => some (pingReply args))
  | save => .data (forClient Permission.server fun _ _ => some (saveReply environment))
  | time => .data (forClient Permission.none fun _ _ => some (timeReply environment))
  | bgsave => .data
      { permissions := Permission.server
        run := fun _ databases => some (databases, bgsaveReply environment) }

end TellyDB.Server
