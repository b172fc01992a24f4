import TellyDB.Commands.SessionCommands
import TellyDB.Lib.Transition

/-!
Owns the way of a command through the server, as the steps of its threads: the
main thread accepts connections and turns events into I/O requests, the I/O
threads read commands, enqueue transactions and write replies, and the
transaction thread executes one block at a time.

A step is `none` when its thread is not at that point, has to wait, or crashes.
-/

namespace TellyDB.Server

open Resp Lib

variable {σ D K : Type} {threads : Nat}

/-! ## I/O requests -/

/-- `IO_QUEUE_SIZE`. -/
def ioQueueSize : Nat := 512

/-- `add_io_request`: nothing for a client that is gone, and a full queue drops
the request. -/
def addIoRequest [NeZero threads] (state : State σ D K threads) (slot origin : Nat)
    (type : IoOpType) : State σ D K threads :=
  match (state.clients slot).id with
  | none => state
  | some id =>
      if (state.ioThreads (Fin.ofNat threads id)).queue.length < ioQueueSize then
        state.updateThread (Fin.ofNat threads id) fun thread =>
          { thread with queue := thread.queue ++ [⟨slot, origin, type⟩] }
      else state

/-- `write_to_socket`, on the connection the slot has now. A socket that is
closed takes nothing. -/
def writeToSocket (state : State σ D K threads) (slot : Nat) (written : Written) :
    State σ D K threads :=
  match (state.clients slot).id with
  | none => state
  | some connection => state.record [.wrote connection written]

/-- `WRITE_OK_MESSAGE` and `WRITE_ERROR_MESSAGE`. -/
def writeMessage (state : State σ D K threads) (slot : Nat) (tag : Tag) (message : Bytes) :
    State σ D K threads :=
  writeToSocket state slot ⟨tag, message, message⟩

/-! ## Transactions -/

/-- `prepare_transaction`. -/
def prepareTransaction (client : Client σ D) (command : Command σ D) (args : List Bytes)
    (tag : Tag) : Transaction σ D :=
  ⟨command, args, client.database, tag⟩

/-- `add_transaction`. It waits while the transaction queue is full, and is
false when an allocation fails. -/
def addTransaction (config : Config σ D K) (state : State σ D K threads) (slot : Nat)
    (command : Command σ D) (args : List Bytes) (tag : Tag) (allocated : Bool) :
    Option (State σ D K threads × Bool) :=
  let client := state.clients slot
  let transaction := prepareTransaction client command args tag
  if allocated = false then some (state, false)
  else
    match client.waitingBlock, h : command.waitingTx with
    | some block, false =>
        let transactions := block.transactions ++ [⟨transaction, h⟩]
        let state := state.setWaitingBlock slot (some { block with transactions := transactions })
        some (state.record [.accepted transaction], true)
    | _, _ =>
        if state.txQueue.length < config.maxTransactionBlocks then
          let block : TransactionBlock σ D := ⟨slot, client.password, .direct transaction⟩
          let state := { state with txQueue := state.txQueue ++ [block] }
          some (state.record [.accepted transaction], true)
        else none

def noPermissions : Bytes := respErrorMessage "No permissions to execute this command"

/-- `CREATE_COMMAND_ENTRY`. -/
def Transaction.entry (transaction : Transaction σ D) (client : Option Nat) (password : Nat) :
    Entry D :=
  ⟨client, transaction.args, transaction.database, password, transaction.tag⟩

/-- `execute_transaction`; `block` is the EXEC whose block it belongs to. -/
def executeTransaction [DecidableEq K] (config : Config σ D K) (state : State σ D K threads)
    (client : Option Nat) (password : Nat) (transaction : Transaction σ D)
    (block : Option Tag) : Outcome σ D K threads := do
  let held ← state.passwords.permissions password
  if held &&& transaction.command.permissions ≠ transaction.command.permissions then do
    let slot ← client
    let execution : Execution σ D := ⟨transaction, password, true, block, noPermissions⟩
    some ((writeMessage state slot (block.getD transaction.tag) noPermissions).record
      [.executed execution], Response.empty)
  else do
    let (state, response) ←
      transaction.command.runOn config state (transaction.entry client password)
    let execution : Execution σ D :=
      ⟨transaction, password, client.isSome, block, response.bytes⟩
    some (state.record [.executed execution], response)

/-- The loop of a `TX_MULTIPLE` block, with the replies that are not empty. -/
def executeTransactions [DecidableEq K] (config : Config σ D K) (client : Option Nat)
    (password : Nat) (exec : Tag) :
    State σ D K threads → List (QueuedTransaction σ D) →
      Option (State σ D K threads × List Bytes)
  | state, [] => some (state, [])
  | state, transaction :: rest => do
      let (state, response) ←
        executeTransaction config state client password transaction.val (some exec)
      let (state, results) ← executeTransactions config client password exec state rest
      some (state, if response.bytes.length = 0 then results else response.bytes :: results)

/-- The reply of a `TX_MULTIPLE` block. -/
def blockReply (results : List Bytes) : Bytes :=
  text "*" ++ decimal results.length ++ crlf ++ results.flatten

/-- What `add_io_request` will be given for a response. -/
def Response.toWrite (response : Response) (writeBuf : Nat) : ToWrite :=
  if response.buffered then .buffer writeBuf response.bytes.length else .bytes response.bytes

/-- The `client` of `execute_transaction_block`: `NULL` once it is gone. -/
def connectedClient (state : State σ D K threads) (slot : Nat) : Option Nat :=
  if (state.clients slot).id.isSome then some slot else none

/-- `execute_transaction_block`, up to its `add_io_request`. It calls `check_autosave` after every
command, which changes nothing that is read here, and may not return. -/
def executeTransactionBlock [DecidableEq K] (config : Config σ D K)
    (state : State σ D K threads) (block : TransactionBlock σ D) :
    Option (State σ D K threads) :=
  match block.data with
  | .direct transaction => do
      let (after, response) ← executeTransaction config state
        (connectedClient state block.client) block.password transaction none
      if response.bytes.length ≠ 0 then do
        let slot ← connectedClient state block.client
        let toWrite := response.toWrite (after.clients slot).writeBuf
        some { after with
          txThread := .responding slot transaction.tag toWrite response.bytes }
      else some { after with txThread := .idle }
  | .multiple exec transactions => do
      let (after, results) ← executeTransactions config
        (connectedClient state block.client) block.password exec state transactions
      let slot ← connectedClient state block.client
      let (after, response) ← bufferedReply after slot (blockReply results)
      let toWrite := response.toWrite (after.clients slot).writeBuf
      some { after with txThread := .responding slot exec toWrite response.bytes }

/-! ## Steps -/

/-- What `get_command_data` and `get_command_index` make of the next command. -/
inductive Input (σ D : Type) where
  | known (command : Command σ D) (args : List Bytes)
  | unknown (name : Bytes)

inductive Action (σ D : Type) (threads : Nat) where
  | accept
  /-- `handle_events` asks for READ, or for TERMINATE once the other side closed,
  for an event of the connection `origin`, registered with the slot it was given. -/
  | event (slot origin : Nat) (closed : Bool)
  | ioPop (thread : Fin threads)
  | ioPerform (thread : Fin threads)
  /-- `read_command` handles its next command. -/
  | readNext (thread : Fin threads) (input : Input σ D) (allocated : Bool)
  /-- `read_command` answers QUEUED if the client has a waiting block. -/
  | readQueued (thread : Fin threads)
  /-- `read_command` returns; at the end of the stream it asks for TERMINATE. -/
  | readEnd (thread : Fin threads) (endOfStream : Bool)
  | txPop
  | txExecute
  | txRespond

section Steps

variable [NeZero threads] [DecidableEq K]

def State.setActivity (state : State σ D K threads) (thread : Fin threads)
    (activity : IoActivity) : State σ D K threads :=
  state.updateThread thread fun current => { current with activity := activity }

/-- The pop of `catch_op_and_execute`. -/
def popOperation (state : State σ D K threads) (thread : Fin threads) :
    Option (State σ D K threads) :=
  match (state.ioThreads thread).activity, (state.ioThreads thread).queue with
  | .idle, operation :: rest =>
      some (state.updateThread thread fun _ => ⟨rest, .popped operation⟩)
  | _, _ => none

/-- The rest of `catch_op_and_execute`. -/
def performOperation (config : Config σ D K) (state : State σ D K threads)
    (thread : Fin threads) : Option (State σ D K threads) :=
  match (state.ioThreads thread).activity with
  | .popped operation =>
      let slot := operation.client
      match (state.clients slot).id with
      | none => some (state.setActivity thread .idle)
      | some id =>
          match operation.type with
          | .terminate => do
              let state ← terminateConnection config state slot
              some ((state.setActivity thread .idle).record [.terminated operation.origin id])
          | .read => some (state.setActivity thread (.reading slot id))
          | .write sequence toWrite produced =>
              let tag : Tag := ⟨operation.origin, sequence⟩
              let written : Written := ⟨tag, produced, state.contents toWrite⟩
              some (writeToSocket (state.setActivity thread .idle) slot written)
  | _ => none

def lockedMessage : Bytes := respErrorMessage
  "Your client is locked, you cannot use any commands until your client is unlocked"

def limitMessage : Bytes := respErrorMessage
  "Transaction cannot be enqueued because of server settings"

def queuedMessage : Bytes := respOkMessage "QUEUED"

/-- The text of `unknown_command`; `%.*s` ends at a NUL. -/
def unknownCommand (name : Bytes) : Bytes :=
  text "-Unknown command '" ++ name.takeWhile (· ≠ 0) ++ text "'" ++ crlf

/-- The next command of a connection arrived. -/
def State.countCommand (state : State σ D K threads) (origin : Nat) : State σ D K threads :=
  { state with sent := Function.update state.sent origin (state.sent origin + 1) }

/-- The body of the loop of `read_command`. Reading on for a client that was
freed meanwhile is a crash. -/
def readNext (config : Config σ D K) (state : State σ D K threads) (thread : Fin threads)
    (input : Input σ D) (allocated : Bool) : Option (State σ D K threads) :=
  match (state.ioThreads thread).activity with
  | .reading slot origin =>
      if (state.clients slot).id = none then none
      else
        let tag : Tag := ⟨origin, state.sent origin⟩
        let counted := state.countCommand origin
        if (state.clients slot).locked then some (writeMessage counted slot tag lockedMessage)
        else
          match input with
          | .unknown name =>
              let reply := unknownCommand name
              some (addIoRequest counted slot origin (.write tag.sequence (.bytes reply) reply))
          | .known command args => do
              let (next, added) ← addTransaction config counted slot command args tag allocated
              if added then some (next.setActivity thread (.added slot tag command.waitingTx))
              else some (writeMessage (next.setActivity thread .idle) slot tag limitMessage)
  | _ => none

/-- The end of that body, once `add_transaction` succeeded. -/
def readQueued (state : State σ D K threads) (thread : Fin threads) :
    Option (State σ D K threads) :=
  match (state.ioThreads thread).activity with
  | .added slot tag waitingTx =>
      if (state.clients slot).id = none then none
      else
        let next := state.setActivity thread (.reading slot tag.origin)
        if (state.clients slot).waitingBlock.isSome ∧ waitingTx = false then
          some (writeMessage next slot tag queuedMessage)
        else some next
  | _ => none

def readEnd (state : State σ D K threads) (thread : Fin threads) (endOfStream : Bool) :
    Option (State σ D K threads) :=
  match (state.ioThreads thread).activity with
  | .reading slot origin =>
      let next := state.setActivity thread .idle
      if endOfStream then some (addIoRequest next slot origin .terminate) else some next
  | _ => none

/-- The pop of `transaction_thread`. -/
def popBlock (state : State σ D K threads) : Option (State σ D K threads) :=
  match state.txThread, state.txQueue with
  | .idle, block :: rest => some { state with txQueue := rest, txThread := .popped block }
  | _, _ => none

/-- `execute_transaction_block` on the popped block. -/
def executeBlock (config : Config σ D K) (state : State σ D K threads) :
    Option (State σ D K threads) :=
  match state.txThread with
  | .popped block => executeTransactionBlock config state block
  | _ => none

/-- The `add_io_request` of `execute_transaction_block`. -/
def respond (state : State σ D K threads) : Option (State σ D K threads) :=
  match state.txThread with
  | .responding slot tag toWrite produced =>
      some (addIoRequest { state with txThread := .idle } slot tag.origin
        (.write tag.sequence toWrite produced))
  | _ => none

/-- One step of one thread. -/
def step (config : Config σ D K) (state : State σ D K threads) :
    Action σ D threads → Option (State σ D K threads)
  | .accept => acceptClient config state
  | .event slot origin closed =>
      some (addIoRequest state slot origin (if closed then .terminate else .read))
  | .ioPop thread => popOperation state thread
  | .ioPerform thread => performOperation config state thread
  | .readNext thread input allocated => readNext config state thread input allocated
  | .readQueued thread => readQueued state thread
  | .readEnd thread endOfStream => readEnd state thread endOfStream
  | .txPop => popBlock state
  | .txExecute => executeBlock config state
  | .txRespond => respond state

end Steps

/-! ## The start -/

/-- The constant passwords, and those loaded from the database file. -/
def initialPasswords (loaded : List (Password K)) : Passwords K where
  objects
    | 0 => some ⟨none, Permission.all⟩
    | 1 => some ⟨none, Permission.none⟩
    | 2 => some ⟨none, Permission.all⟩
    | address + 3 => loaded[address]?
  list := (List.range loaded.length).map (· + 3)
  nextAddress := loaded.length + 3

/-- The server when it begins to handle events. -/
def start (config : Config σ D K) (databases : σ) (loaded : List (Password K)) :
    State σ D K threads where
  clients _ := ⟨none, config.initialDatabase, defaultPassword, .resp2, false, none, 0⟩
  clientCount := 0
  lastConnectionClientId := 1
  passwords := initialPasswords loaded
  databases := databases
  writeBufs _ := []
  txQueue := []
  txThread := .idle
  ioThreads _ := ⟨[], .idle⟩
  sent _ := 0
  trace := []

/-! ## A small server -/

/-- `ECHO`. -/
def echo : DataCommand Unit Unit where
  permissions := Permission.none
  run entry databases :=
    match entry.protover, entry.args with
    | none, _ => some (databases, Response.empty)
    | some _, [argument] => some (databases, ⟨createRespString argument, true⟩)
    | some _, _ => some (databases, Response.literal (wrongArgumentError "ECHO"))

/-- A configuration without data, for runs on fixed input. -/
def sampleConfig : Config Unit Unit Bytes where
  maxClients := 4
  maxTransactionBlocks := 16
  initialDatabase := ()
  getDatabase _ _ := some ()
  createDatabase _ _ := none
  derive value := value
  version := text "1.0.0"
  randomString _ := []
  passwordAllocated _ := false
  clientInfo _ _ _ _ := some []
  inline _ := false

/-- The I/O thread of a connection, of two. -/
def threadOf (connection : Nat) : Fin 2 := ⟨connection % 2, Nat.mod_lt _ (by decide)⟩

/-- The steps that read one command of `connection`. -/
def received (slot connection : Nat) (command : Command Unit Unit) (args : List Bytes) :
    List (Action Unit Unit 2) :=
  [.event slot connection false, .ioPop (threadOf connection), .ioPerform (threadOf connection),
    .readNext (threadOf connection) (.known command args) true,
    .readQueued (threadOf connection)]

/-- The steps from the arrival of one command to the end of its execution. -/
def executed (slot connection : Nat) (command : Command Unit Unit) (args : List Bytes) :
    List (Action Unit Unit 2) :=
  received slot connection command args ++ [.readEnd (threadOf connection) false, .txPop, .txExecute]

/-- The steps that put a reply on the socket of `connection`. -/
def replied (connection : Nat) : List (Action Unit Unit 2) :=
  [.txRespond, .ioPop (threadOf connection), .ioPerform (threadOf connection)]

/-- One command and its reply. -/
def exchanged (slot connection : Nat) (command : Command Unit Unit) (args : List Bytes) :
    List (Action Unit Unit 2) :=
  executed slot connection command args ++ replied connection

end TellyDB.Server
