import TellyDB.Resp.Replies
import Mathlib.Logic.Function.Basic

/-!
Owns the data of the running server: clients, passwords, transactions, I/O
operations, and the state of the threads between two of their steps.

Beside the data of the source the state keeps `sent` and `trace`, which no
function reads: `sent` numbers the commands of each connection in the order in
which they were sent, and `trace` records what an observer sees.
-/

namespace TellyDB.Server

open Resp

/-- The `sequence`-th command of the connection with id `origin`. -/
structure Tag where
  origin : Nat
  sequence : Nat
deriving DecidableEq

inductive ProtocolVersion where
  | resp2
  | resp3
deriving DecidableEq

/-! ## Commands -/

/-- `enum Permission`. -/
abbrev Permissions := BitVec 8

namespace Permission

def none : Permissions := 0b00000000
def read : Permissions := 0b00000001
def write : Permissions := 0b00000010
def client : Permissions := 0b00000100
def config : Permissions := 0b00001000
def auth : Permissions := 0b00010000
def server : Permissions := 0b00100000

def all : Permissions := read ||| write ||| client ||| config ||| auth ||| server

end Permission

/-- The `string_t` a command returns: its bytes, and whether they were written
at the front of `client->write_buf` or are a text that does not change. -/
structure Response where
  bytes : Bytes
  buffered : Bool
deriving DecidableEq

namespace Response

/-- `EMPTY_STRING()`. -/
def empty : Response := ⟨[], false⟩

def literal (bytes : Bytes) : Response := ⟨bytes, false⟩

end Response

/-- What a command that works on the databases reads of its `CommandEntry`: the
protocol version of the client, unless that is `NULL`, and the permissions the
password grants. -/
structure DataEntry (D : Type) where
  protover : Option ProtocolVersion
  args : List Bytes
  database : D
  permissions : Permissions

/-- A command that works on the databases only, expiry of its keys included.
`none` is a crash, such as the use of a client that is `NULL`. -/
structure DataCommand (σ D : Type) where
  permissions : Permissions
  affectDatabase : Bool := false
  run : DataEntry D → σ → Option (σ × Response)

/-- The commands that read or change the session of a client, each by its name,
and all others. -/
inductive Command (σ D : Type) where
  | multi
  | exec
  | discard
  | select
  | auth
  | hello
  | pwd
  | client
  | data (command : DataCommand σ D)

namespace Command

variable {σ D : Type}

/-- `command->permissions`. -/
def permissions : Command σ D → Permissions
  | pwd => Permission.auth
  | data command => command.permissions
  | _ => Permission.none

/-- `command->flags.bits.affect_database`. -/
def affectDatabase : Command σ D → Bool
  | data command => command.affectDatabase
  | _ => false

/-- `command->flags.bits.waiting_tx`. -/
def waitingTx : Command σ D → Bool
  | multi | exec | discard => true
  | _ => false

end Command

/-! ## Transactions -/

structure Transaction (σ D : Type) where
  command : Command σ D
  args : List Bytes
  database : D
  tag : Tag

/-- A transaction of a waiting block: `add_transaction` sends the commands that
manage the block itself past it. -/
abbrev QueuedTransaction (σ D : Type) :=
  { transaction : Transaction σ D // transaction.command.waitingTx = false }

/-- A `TransactionBlock` of type `TX_WAITING`, owned by its client. -/
structure WaitingBlock (σ D : Type) where
  password : Nat
  transactions : List (QueuedTransaction σ D)

/-- `TX_DIRECT` or `TX_MULTIPLE`; the latter with the EXEC that enqueued it. -/
inductive BlockData (σ D : Type) where
  | direct (transaction : Transaction σ D)
  | multiple (exec : Tag) (transactions : List (QueuedTransaction σ D))

/-- A block of the transaction queue. `client` is a slot of the client table. -/
structure TransactionBlock (σ D : Type) where
  client : Nat
  password : Nat
  data : BlockData σ D

namespace TransactionBlock

variable {σ D : Type}

/-- The command the block's replies answer. -/
def tag (block : TransactionBlock σ D) : Tag :=
  match block.data with
  | .direct transaction => transaction.tag
  | .multiple exec _ => exec

def transactions (block : TransactionBlock σ D) : List (Transaction σ D) :=
  match block.data with
  | .direct transaction => [transaction]
  | .multiple _ transactions => transactions.map Subtype.val

/-- A command that manages a block is the only one of its own block. -/
theorem tag_of_managing {block : TransactionBlock σ D} {transaction : Transaction σ D}
    (member : transaction ∈ block.transactions)
    (managesOne : transaction.command.waitingTx = true) : transaction.tag = block.tag := by
  unfold transactions at member
  unfold tag
  cases data : block.data with
  | direct only =>
      rw [data] at member
      rw [List.mem_singleton.mp member]
  | multiple exec others =>
      rw [data] at member
      rcases List.mem_map.mp member with ⟨queued, _, rfl⟩
      rw [queued.property] at managesOne
      cases managesOne

/-- Some command of the block passes the test. -/
def anyCommand (block : TransactionBlock σ D) (test : Command σ D → List Bytes → Bool) : Bool :=
  block.transactions.any fun transaction => test transaction.command transaction.args

end TransactionBlock

/-! ## Clients and passwords -/

/-- A slot of the client table; `id` is `none` for `-1`. The connection of the
slot, and its `write_buf`, are named by the id they were made for. -/
structure Client (σ D : Type) where
  id : Option Nat
  database : D
  password : Nat
  protover : ProtocolVersion
  locked : Bool
  waitingBlock : Option (WaitingBlock σ D)
  writeBuf : Nat

structure Password (K : Type) where
  data : Option K
  permissions : Permissions

/-- The `Password` objects by address, freed ones are `none`, and the list
`passwords[0 .. password_count)` of addresses. -/
structure Passwords (K : Type) where
  objects : Nat → Option (Password K)
  list : List Nat
  nextAddress : Nat

def defaultPassword : Nat := 0
def emptyPassword : Nat := 1
def fullPassword : Nat := 2

/-! ## I/O operations -/

/-- `to_write`: bytes that do not change, or the first `length` bytes of a
`write_buf`. -/
inductive ToWrite where
  | bytes (bytes : Bytes)
  | buffer (writeBuf length : Nat)

/-- `IOOpType`. A write remembers the reply it was enqueued for. -/
inductive IoOpType where
  | read
  | write (sequence : Nat) (toWrite : ToWrite) (produced : Bytes)
  | terminate

/-- `IOOperation`, with the connection it was requested for. -/
structure IoOperation where
  client : Nat
  origin : Nat
  type : IoOpType

/-- What an I/O thread is doing between two steps: nothing, holding a popped
operation, in the loop of `read_command`, or in that loop after
`add_transaction` succeeded. -/
inductive IoActivity where
  | idle
  | popped (operation : IoOperation)
  | reading (client origin : Nat)
  | added (client : Nat) (tag : Tag) (waitingTx : Bool)

structure IoThread where
  queue : List IoOperation
  activity : IoActivity

/-- What the transaction thread is doing between two steps: nothing, holding a
popped block, or about to enqueue the write request of a reply. -/
inductive TxActivity (σ D : Type) where
  | idle
  | popped (block : TransactionBlock σ D)
  | responding (client : Nat) (tag : Tag) (toWrite : ToWrite) (produced : Bytes)

/-- The popped operation, if any. -/
def IoActivity.held : IoActivity → List IoOperation
  | .popped operation => [operation]
  | _ => []

/-- The operations a thread has yet to perform, oldest first. -/
def IoThread.operations (thread : IoThread) : List IoOperation :=
  thread.activity.held ++ thread.queue

/-- The popped block, if any. -/
def TxActivity.held {σ D : Type} : TxActivity σ D → List (TransactionBlock σ D)
  | .popped block => [block]
  | _ => []

/-! ## The trace -/

/-- Bytes put on a socket as the reply to `tag`: what the command produced, and
what was sent. -/
structure Written where
  tag : Tag
  produced : Bytes
  sent : Bytes
deriving DecidableEq

/-- One call of `execute_transaction`, with what it used. `block` is the EXEC
of the block it was part of. -/
structure Execution (σ D : Type) where
  transaction : Transaction σ D
  password : Nat
  connected : Bool
  block : Option Tag
  reply : Bytes

inductive Event (σ D : Type) where
  /-- `add_transaction` returned true. -/
  | accepted (transaction : Transaction σ D)
  /-- A command got its turn in the transaction thread. -/
  | executed (execution : Execution σ D)
  /-- MULTI created a block. -/
  | opened (tag : Tag)
  /-- EXEC enqueued the block. -/
  | committed (tag : Tag)
  /-- DISCARD freed the block. -/
  | discarded (tag : Tag)
  | wrote (connection : Nat) (written : Written)
  /-- A TERMINATE operation requested for `origin` closed `connection`. -/
  | terminated (origin connection : Nat)

/-! ## The server -/

/-- What the server gets from its configuration, its databases and its
libraries. `getDatabase` and `createDatabase` are those of
`database/databases.c`, `derive` is the key derivation of the passwords,
`randomString` what `generate_random_string` draws next. What differs from call to
call is told for the command that is executed: `passwordAllocated` is whether
`amalloc` succeeds in `add_password`, which it does not where pointers have 8 bytes,
as a `Password` is aligned to 4; `clientInfo` is what CLIENT INFO makes of the rest
of a client, where its strings have an end; `inline` is whether `parse_inline_command`
read the command, which puts a NUL behind each argument. -/
structure Config (σ D K : Type) where
  maxClients : Nat
  maxTransactionBlocks : Nat
  initialDatabase : D
  getDatabase : σ → Bytes → Option D
  createDatabase : σ → Bytes → Option (σ × D)
  derive : Bytes → K
  version : Bytes
  randomString : Nat → Bytes
  passwordAllocated : Tag → Bool
  clientInfo : Tag → Option Nat → ProtocolVersion → Permissions → Option Bytes
  inline : Tag → Bool

structure State (σ D K : Type) (threads : Nat) where
  clients : Nat → Client σ D
  clientCount : Nat
  lastConnectionClientId : Nat
  passwords : Passwords K
  databases : σ
  writeBufs : Nat → Bytes
  txQueue : List (TransactionBlock σ D)
  txThread : TxActivity σ D
  ioThreads : Fin threads → IoThread
  sent : Nat → Nat
  trace : List (Event σ D)

namespace State

variable {σ D K : Type} {threads : Nat}

/-! ## Updates of one part of the state -/

def record (state : State σ D K threads) (events : List (Event σ D)) : State σ D K threads :=
  { state with trace := state.trace ++ events }

def updateClient (state : State σ D K threads) (slot : Nat)
    (update : Client σ D → Client σ D) : State σ D K threads :=
  { state with clients := Function.update state.clients slot (update (state.clients slot)) }

def setWaitingBlock (state : State σ D K threads) (slot : Nat)
    (block : Option (WaitingBlock σ D)) : State σ D K threads :=
  state.updateClient slot fun client => { client with waitingBlock := block }

def updateThread (state : State σ D K threads) (thread : Fin threads)
    (update : IoThread → IoThread) : State σ D K threads :=
  { state with
    ioThreads := Function.update state.ioThreads thread (update (state.ioThreads thread)) }

/-- Bytes written at the front of a `write_buf`; what follows them stays. -/
def store (state : State σ D K threads) (writeBuf : Nat) (bytes : Bytes) :
    State σ D K threads :=
  { state with
    writeBufs := Function.update state.writeBufs writeBuf
      (bytes ++ (state.writeBufs writeBuf).drop bytes.length) }

/-- The bytes `to_write` refers to now. -/
def contents (state : State σ D K threads) : ToWrite → Bytes
  | .bytes bytes => bytes
  | .buffer writeBuf length => (state.writeBufs writeBuf).take length

/-- The blocks that wait to be executed, oldest first. -/
def pending (state : State σ D K threads) : List (TransactionBlock σ D) :=
  state.txThread.held ++ state.txQueue

end State

end TellyDB.Server
