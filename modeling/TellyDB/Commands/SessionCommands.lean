import TellyDB.Server.Clients

/-!
Owns the commands that read or change the session of a client: MULTI, EXEC and
DISCARD, SELECT, AUTH, HELLO, PWD and CLIENT, and how any command is run.

A command is `none` where the source crashes: it uses a client that is `NULL`,
a password that is freed, an argument that was not sent, or writes more than
`MAX_RESPONSE_SIZE` bytes into a `write_buf`.
-/

namespace TellyDB.Server

open Resp

variable {σ D K : Type} {threads : Nat}

/-- `MAX_RESPONSE_SIZE`. -/
def maxResponseSize : Nat := 262144

/-- `CommandEntry`; `client` is a slot of the client table or `NULL`. -/
structure Entry (D : Type) where
  client : Option Nat
  args : List Bytes
  database : D
  password : Nat
  tag : Tag

abbrev Outcome (σ D K : Type) (threads : Nat) : Type :=
  Option (State σ D K threads × Response)

/-- Returns a text that does not change. -/
def literalReply (state : State σ D K threads) (bytes : Bytes) : Outcome σ D K threads :=
  some (state, Response.literal bytes)

/-- Writes a reply into the `write_buf` of a client and returns it. -/
def bufferedReply (state : State σ D K threads) (slot : Nat) (bytes : Bytes) :
    Outcome σ D K threads :=
  if bytes.length ≤ maxResponseSize then
    some (state.store (state.clients slot).writeBuf bytes, ⟨bytes, true⟩)
  else none

/-- `PASS_NO_CLIENT(client)` before the rest of a command. -/
def passNoClient (state : State σ D K threads) (client : Option Nat)
    (rest : Nat → Outcome σ D K threads) : Outcome σ D K threads :=
  match client with
  | none => some (state, Response.empty)
  | some slot => rest slot

/-! ## MULTI, EXEC and DISCARD -/

/-- `MULTI`. The allocation succeeds. -/
def runMulti (state : State σ D K threads) (entry : Entry D) : Outcome σ D K threads :=
  passNoClient state entry.client fun slot =>
    match (state.clients slot).waitingBlock with
    | some _ =>
        literalReply state (respErrorMessage
          "Already started a transaction block, cannot create one without executing before")
    | none =>
        let state := state.setWaitingBlock slot (some ⟨entry.password, []⟩)
        literalReply (state.record [.opened entry.tag]) respOk

/-- `EXEC`. `enqueue_to_transaction_queue` fails when the queue is full, and
the block then stays the client's. -/
def runExec (config : Config σ D K) (state : State σ D K threads) (entry : Entry D) :
    Outcome σ D K threads :=
  passNoClient state entry.client fun slot =>
    match (state.clients slot).waitingBlock with
    | none =>
        literalReply state (respErrorMessage
          "A transaction block did not started, cannot execute one without starting before")
    | some block =>
        if state.txQueue.length < config.maxTransactionBlocks then
          let queued : TransactionBlock σ D :=
            ⟨slot, block.password, .multiple entry.tag block.transactions⟩
          let state := { state with txQueue := state.txQueue ++ [queued] }
          some ((state.setWaitingBlock slot none).record [.committed entry.tag], Response.empty)
        else
          literalReply state (respErrorMessage
            "The transaction block could not be executed, out of memory")

/-- `DISCARD`. -/
def runDiscard (state : State σ D K threads) (entry : Entry D) : Outcome σ D K threads :=
  passNoClient state entry.client fun slot =>
    match (state.clients slot).waitingBlock with
    | none =>
        literalReply state (respErrorMessage
          "There is no transaction block, cannot execute one without starting before")
    | some block =>
        let state := (state.setWaitingBlock slot none).record [.discarded entry.tag]
        bufferedReply state slot (createRespInteger block.transactions.length)

/-! ## SELECT, AUTH and HELLO -/

/-- `get_database`, and `create_database` where there is none. -/
def openDatabase (config : Config σ D K) (databases : σ) (name : Bytes) : Option (σ × D) :=
  match config.getDatabase databases name with
  | some database => some (databases, database)
  | none => config.createDatabase databases name

/-- `SELECT`. -/
def runSelect (config : Config σ D K) (state : State σ D K threads) (entry : Entry D) :
    Outcome σ D K threads :=
  passNoClient state entry.client fun slot =>
    match entry.args with
    | [name] =>
        match openDatabase config state.databases name with
        | none => literalReply state (respErrorMessage "Memory error, cannot create new database")
        | some (databases, database) =>
            let state := { state with databases := databases }
            literalReply
              (state.updateClient slot fun client => { client with database := database }) respOk
    | _ => literalReply state (wrongArgumentError "SELECT")

/-- `AUTH` with the password `input`; `confirmed` when `ok` follows it. -/
def authorize [DecidableEq K] (config : Config σ D K) (state : State σ D K threads)
    (entry : Entry D) (slot : Nat) (input : Bytes) (confirmed : Bool) : Outcome σ D K threads :=
  match state.passwords.wherePassword config input with
  | none => literalReply state (respErrorMessage "This password does not exist")
  | some target =>
      if entry.password ≠ emptyPassword ∧ confirmed = false then
        literalReply state (respOkMessage <|
          "A password already in use for your client. " ++
          "If you sure to change, use command with ok argument")
      else
        let password := state.passwords.list.getD target 0
        literalReply
          (state.updateClient slot fun client => { client with password := password }) respOk

/-- The memory from an argument on: a NUL stands behind those of an inline command, and a CR
behind the others. -/
def Config.memory (config : Config σ D K) (tag : Tag) (argument : Bytes) : Bytes :=
  argument ++ [if config.inline tag then 0 else 0x0d]

/-- `streq` on the memory of an argument, which it reads up to a NUL. -/
def streq (memory : Bytes) (string : String) : Bool :=
  (text string ++ [0]).isPrefixOf memory

/-- `AUTH`. -/
def runAuth [DecidableEq K] (config : Config σ D K) (state : State σ D K threads)
    (entry : Entry D) : Outcome σ D K threads :=
  passNoClient state entry.client fun slot =>
    match entry.args with
    | [input] => authorize config state entry slot input false
    | [input, ok] =>
        authorize config state entry slot input (streq (config.memory entry.tag ok) "ok")
    | _ => literalReply state (wrongArgumentError "AUTH")

/-- The text of `client->id`, which is `-1` once the client killed itself. -/
def idText (id : Option Nat) : Bytes :=
  match id with
  | none => text "-1"
  | some id => decimal id

/-- The reply of `HELLO`. -/
def helloReply (config : Config σ D K) (protover : ProtocolVersion) (id : Option Nat) :
    Bytes :=
  let header := match protover with
    | .resp2 => text "*8" ++ crlf
    | .resp3 => text "%4" ++ crlf
  let protocol := match protover with
    | .resp2 => text "RESP2"
    | .resp3 => text "RESP3"
  header ++
    createRespString (text "server") ++ createRespString (text "telly") ++
    createRespString (text "version") ++ createRespString config.version ++
    createRespString (text "protocol") ++ createRespString protocol ++
    createRespString (text "client id") ++ createRespString (idText id)

/-- `determine_protover`. -/
def determineProtover (value : Bytes) : Option ProtocolVersion :=
  if value = text "2" then some .resp2
  else if value = text "3" then some .resp3
  else none

/-- `HELLO`. -/
def runHello (config : Config σ D K) (state : State σ D K threads) (entry : Entry D) :
    Outcome σ D K threads :=
  passNoClient state entry.client fun slot =>
    match entry.args with
    | [version] =>
        match determineProtover version with
        | none => literalReply state (respErrorMessage "Invalid protocol version")
        | some protover =>
            let state := state.updateClient slot fun client => { client with protover := protover }
            bufferedReply state slot (helloReply config protover (state.clients slot).id)
    | _ => literalReply state (wrongArgumentError "HELLO")

/-! ## PWD -/

/-- `permissions_mapping`; a byte outside the array must not be looked up. -/
def permissionsMapping (byte : UInt8) : Option Permissions :=
  if byte = 0x72 then some Permission.read
  else if byte = 0x77 then some Permission.write
  else if byte = 0x63 then some Permission.client
  else if byte = 0x6f then some Permission.config
  else if byte = 0x61 then some Permission.auth
  else if byte = 0x73 then some Permission.server
  else if byte ≤ 0x77 then some Permission.none
  else none

/-- The loop of `read_permissions_value`, from the last byte on: a byte without
a permission adds nothing, and one with a permission is the error. It starts one
behind the value, at the byte that ends the argument, and so never looks at the
first byte. -/
def readPermissionsValue (value : Bytes) : Option (Except UInt8 Permissions) :=
  let rec loop : List UInt8 → Option (Except UInt8 Permissions)
    | [] => some (.ok Permission.none)
    | byte :: rest => do
        let data ← permissionsMapping byte
        if data = Permission.none then loop rest else some (.error byte)
  loop (value.drop 1).reverse

/-- The permissions argument of ADD and EDIT; `all` stands for what the full password
grants now. -/
def readPermissions (passwords : Passwords K) (value : Bytes) :
    Option (Except UInt8 Permissions) :=
  if value = text "all" then (passwords.permissions fullPassword).map .ok
  else readPermissionsValue value

/-- What ADD and EDIT do with that argument: they refuse it where the executor
lacks one of the permissions. -/
def requestedPermissions (state : State σ D K threads) (entry : Entry D) (value : Bytes)
    (rest : Permissions → Outcome σ D K threads) : Outcome σ D K threads := do
  match ← readPermissions state.passwords value with
  | .error byte => do
      let slot ← entry.client
      bufferedReply state slot (text "-Invalid permission: '" ++ [byte] ++ text "'" ++ crlf)
  | .ok permissions => do
      let held ← state.passwords.permissions entry.password
      if ~~~held &&& permissions ≠ 0 then
        passNoClient state entry.client fun _ =>
          literalReply state
            (respErrorMessage "Tried to give permissions your password do not have")
      else rest permissions

/-- `PWD ADD`. -/
def addPwd [DecidableEq K] (config : Config σ D K) (state : State σ D K threads)
    (entry : Entry D) : Outcome σ D K threads :=
  match entry.args with
  | [_, data, value] =>
      requestedPermissions state entry value fun permissions =>
        match state.passwords.wherePassword config data with
        | some _ => literalReply state (respErrorMessage "This password already exists")
        | none => do
            let (state, added) ← addPassword config state entry.client data permissions
              (config.passwordAllocated entry.tag)
            passNoClient state entry.client fun _ =>
              literalReply state
                (if added then respOk else respErrorMessage "Password cannot be created")
  | _ => passNoClient state entry.client fun _ =>
      literalReply state (wrongArgumentError "PWD ADD")

/-- `PWD EDIT`. -/
def editPwd [DecidableEq K] (config : Config σ D K) (state : State σ D K threads)
    (entry : Entry D) : Outcome σ D K threads :=
  match entry.args with
  | [_, input, value] =>
      match state.passwords.wherePassword config input with
      | none => passNoClient state entry.client fun _ =>
          literalReply state (respErrorMessage "This password does not exist")
      | some target =>
          requestedPermissions state entry value fun permissions =>
            let state := { state with
              passwords := state.passwords.setPermissions
                (state.passwords.list.getD target 0) permissions }
            passNoClient state entry.client fun _ => literalReply state respOk
  | _ => passNoClient state entry.client fun _ =>
      literalReply state (wrongArgumentError "PWD EDIT")

/-- `PWD REMOVE`. -/
def removePwd [DecidableEq K] (config : Config σ D K) (state : State σ D K threads)
    (entry : Entry D) : Outcome σ D K threads :=
  match entry.args with
  | [_, input] => do
      let (state, removed) ← removePassword config state entry.client input
      passNoClient state entry.client fun _ =>
        literalReply state
          (if removed then respOk else respErrorMessage "This password cannot be found")
  | _ => passNoClient state entry.client fun _ =>
      literalReply state (wrongArgumentError "PWD REMOVE")

/-- `PWD GENERATE`. -/
def generatePwd (config : Config σ D K) (state : State σ D K threads) (entry : Entry D) :
    Outcome σ D K threads :=
  passNoClient state entry.client fun slot =>
    bufferedReply state slot
      (text "$32" ++ crlf ++ config.randomString state.trace.length ++ crlf)

/-- The subcommand of `PWD` that the first argument names. -/
def pwdSubcommand [DecidableEq K] (config : Config σ D K) (state : State σ D K threads)
    (entry : Entry D) (subcommand : Bytes) : Outcome σ D K threads :=
  if subcommand = text "ADD" then addPwd config state entry
  else if subcommand = text "EDIT" then editPwd config state entry
  else if subcommand = text "REMOVE" then removePwd config state entry
  else if subcommand = text "GENERATE" then generatePwd config state entry
  else
    passNoClient state entry.client fun _ => literalReply state (invalidSubcommandError "PWD")

/-- `PWD`. A client that is gone gets no reply, whatever the subcommand returned. -/
def runPwd [DecidableEq K] (config : Config σ D K) (state : State σ D K threads)
    (entry : Entry D) : Outcome σ D K threads :=
  match entry.args with
  | [] => passNoClient state entry.client fun _ =>
      literalReply state (missingSubcommandError "PWD")
  | argument :: _ => do
      let (state, response) ← pwdSubcommand config state entry (toUppercase argument)
      passNoClient state entry.client fun _ => some (state, response)

/-! ## CLIENT -/

def isDigit (byte : UInt8) : Bool := decide (0x30 ≤ byte ∧ byte ≤ 0x39)

/-- `try_parse_integer`, on an argument that a byte other than a digit follows. -/
def tryParseInteger (string : Bytes) : Bool :=
  match string with
  | [] => false
  | 0x2d :: rest =>
      match rest with
      | [] => false
      | first :: _ => first != 0x30 && rest.all isDigit
  | digits => digits.all isDigit

/-- The number a digit string denotes. -/
def digitsValue (digits : Bytes) : Nat :=
  digits.foldl (fun value byte => value * 10 + (byte.toNat - 0x30)) 0

/-- The id in `args->data[1]`, or the error text. A negative one is out of
bounds, as is one that `strtoll` clips. -/
def requestedId (argument : Bytes) : Except String Nat :=
  if tryParseInteger argument = false then
    .error "Specified argument must be integer for the ID"
  else if argument.head? = some 0x2d ∨ 2 ^ 32 - 1 < digitsValue argument then
    .error "Specified ID is out of bounds for uint32_t"
  else .ok (digitsValue argument)

/-- What LOCK, UNLOCK and KILL share: the permission of the executor, the id of
the target, and the lookup of it. -/
def onTarget (config : Config σ D K) (state : State σ D K threads) (entry : Entry D)
    (found : Nat → Nat → Outcome σ D K threads) : Outcome σ D K threads := do
  let held ← state.passwords.permissions entry.password
  if held &&& Permission.client = 0 then
    passNoClient state entry.client fun _ =>
      literalReply state (respErrorMessage "Not allowed to use this command, need P_CLIENT")
  else do
    let argument ← entry.args[1]?
    match requestedId argument with
    | .error message =>
        passNoClient state entry.client fun _ => literalReply state (respErrorMessage message)
    | .ok id => do
        match ← getClient config.maxClients state.clients id with
        | none =>
            passNoClient state entry.client fun slot =>
              bufferedReply state slot
                (text "-There is no client whose ID is #" ++ decimal id ++ crlf)
        | some target => found id target

/-- A refusal that names the target, written into the executor's `write_buf`. -/
def refuseTarget (state : State σ D K threads) (entry : Entry D) (id : Nat) (reason : String) :
    Outcome σ D K threads :=
  passNoClient state entry.client fun slot =>
    bufferedReply state slot (text "-Client #" ++ decimal id ++ text reason ++ crlf)

/-- `CLIENT LOCK`. -/
def subcommandLock (config : Config σ D K) (state : State σ D K threads) (entry : Entry D) :
    Outcome σ D K threads :=
  onTarget config state entry fun id target => do
    let permissions ← state.passwords.permissions (state.clients target).password
    if permissions &&& Permission.client ≠ 0 then
      refuseTarget state entry id " has P_CLIENT, so cannot be locked"
    else if (state.clients target).locked then
      refuseTarget state entry id " is locked, so cannot be relocked"
    else
      let state := state.updateClient target fun client => { client with locked := true }
      passNoClient state entry.client fun _ => literalReply state respOk

/-- `CLIENT UNLOCK`. -/
def subcommandUnlock (config : Config σ D K) (state : State σ D K threads) (entry : Entry D) :
    Outcome σ D K threads :=
  onTarget config state entry fun id target =>
    if (state.clients target).locked = false then
      refuseTarget state entry id " is not locked, so cannot be unlocked"
    else
      let state := state.updateClient target fun client => { client with locked := false }
      passNoClient state entry.client fun _ => literalReply state respOk

/-- `CLIENT KILL`. -/
def subcommandKill (config : Config σ D K) (state : State σ D K threads) (entry : Entry D) :
    Outcome σ D K threads :=
  onTarget config state entry fun id target => do
    let permissions ← state.passwords.permissions (state.clients target).password
    if permissions &&& Permission.client ≠ 0 then
      refuseTarget state entry id " has P_CLIENT, so cannot be killed"
    else do
      let state ← terminateConnection config state target
      passNoClient state entry.client fun _ => literalReply state respOk

/-- `CLIENT LIST`. -/
def subcommandList (config : Config σ D K) (state : State σ D K threads) (entry : Entry D)
    (slot : Nat) : Outcome σ D K threads := do
  let held ← state.passwords.permissions entry.password
  if held &&& Permission.client = 0 then
    literalReply state (respErrorMessage "Not allowed to use this command, need P_CLIENT")
  else
    let ids := (List.range config.maxClients).filterMap fun slot => (state.clients slot).id
    bufferedReply state slot
      (text "*" ++ decimal state.clientCount ++ crlf ++
        ids.flatMap fun id => text "+" ++ decimal id ++ crlf)

/-- The size of `res` in `subcommand_info`. -/
def clientInfoSize : Nat := 512

/-- The reply of `CLIENT INFO` about a target. Nothing bounds the text, which ends in a NUL. -/
def describeClient (config : Config σ D K) (state : State σ D K threads) (tag : Tag)
    (slot target : Nat) : Outcome σ D K threads := do
  let described := state.clients target
  let permissions ← state.passwords.permissions described.password
  let res ← config.clientInfo tag described.id described.protover permissions
  if res.length < clientInfoSize then bufferedReply state slot (createRespString res) else none

/-- `CLIENT INFO`. -/
def subcommandInfo (config : Config σ D K) (state : State σ D K threads) (entry : Entry D)
    (slot : Nat) : Outcome σ D K threads :=
  match entry.args with
  | [_] => describeClient config state entry.tag slot slot
  | [_, argument] => do
      let held ← state.passwords.permissions entry.password
      if held &&& Permission.client = 0 then
        literalReply state (respErrorMessage
          "Not allowed to use this command with argument, need P_CLIENT")
      else
        match requestedId argument with
        | .error message => literalReply state (respErrorMessage message)
        | .ok id => do
            match ← getClient config.maxClients state.clients id with
            | none => literalReply state (respErrorMessage "The client does not exist")
            | some target => describeClient config state entry.tag slot target
  | _ => literalReply state (respErrorMessage "The argument count must be 1 or 2.")

/-- `CLIENT SETINFO`. It copies the byte behind the value for an end; what it keeps is read by
CLIENT INFO only. -/
def subcommandSetinfo (state : State σ D K threads) (entry : Entry D) : Outcome σ D K threads :=
  match entry.args with
  | [_, property, _] =>
      if toUppercase property = text "LIB-NAME" ∨ toUppercase property = text "LIB-VERSION" then
        literalReply state respOk
      else literalReply state (respErrorMessage "Unknown property")
  | _ => literalReply state (wrongArgumentError "CLIENT SETINFO")

/-- `CLIENT`. -/
def runClient (config : Config σ D K) (state : State σ D K threads) (entry : Entry D) :
    Outcome σ D K threads :=
  match entry.args with
  | [] => passNoClient state entry.client fun _ =>
      literalReply state (missingSubcommandError "CLIENT")
  | argument :: _ =>
      let subcommand := toUppercase argument
      if subcommand = text "LOCK" then subcommandLock config state entry
      else if subcommand = text "KILL" then subcommandKill config state entry
      else if subcommand = text "UNLOCK" then subcommandUnlock config state entry
      else passNoClient state entry.client fun slot =>
        if subcommand = text "ID" then
          bufferedReply state slot (text ":" ++ idText (state.clients slot).id ++ crlf)
        else if subcommand = text "INFO" then subcommandInfo config state entry slot
        else if subcommand = text "LIST" then subcommandList config state entry slot
        else if subcommand = text "SETINFO" then subcommandSetinfo state entry
        else literalReply state (invalidSubcommandError "CLIENT")

/-! ## All commands -/

/-- A command that works on the databases only. -/
def runData (state : State σ D K threads) (entry : Entry D) (command : DataCommand σ D) :
    Outcome σ D K threads := do
  let permissions ← state.passwords.permissions entry.password
  let protover := entry.client.map fun slot => (state.clients slot).protover
  let (databases, response) ←
    command.run ⟨protover, entry.args, entry.database, permissions⟩ state.databases
  let state := { state with databases := databases }
  if response.buffered then do
    let slot ← entry.client
    bufferedReply state slot response.bytes
  else literalReply state response.bytes

/-- `command->run(&entry)`. -/
def Command.runOn [DecidableEq K] (command : Command σ D) (config : Config σ D K)
    (state : State σ D K threads) (entry : Entry D) : Outcome σ D K threads :=
  match command with
  | .multi => runMulti state entry
  | .exec => runExec config state entry
  | .discard => runDiscard state entry
  | .select => runSelect config state entry
  | .auth => runAuth config state entry
  | .hello => runHello config state entry
  | .pwd => runPwd config state entry
  | .client => runClient config state entry
  | .data command => runData state entry command

end TellyDB.Server
