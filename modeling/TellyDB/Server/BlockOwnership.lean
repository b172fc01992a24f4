import TellyDB.Lib.Custody
import TellyDB.Lib.Transition
import TellyDB.Server.State

/-!
Owns where the transaction blocks are: the pointers `client->waiting_block`,
the entries of the transaction queue, and the block that is executed, over the
blocks that are allocated. Addresses are allocation numbers, so that no address
is handed out twice.

A function is `none` where the source uses or frees memory that is freed, reads
a block by the wrong member of its union, or uses a client that is `NULL`.
-/

namespace TellyDB.Server.BlockOwnership

open Lib Transition

variable {σ D : Type}

/-! ## Memory -/

inductive BlockType where
  | direct
  | waiting
  | multiple
deriving DecidableEq

/-- `block->data`, a union. -/
inductive BlockData (σ D : Type) where
  | transaction (transaction : Transaction σ D)
  | multiple (transactions : List (QueuedTransaction σ D))

structure Block (σ D : Type) where
  type : BlockType
  client : Nat
  data : BlockData σ D

/-- A client slot. `waitingBlock` stays when the client is removed, and points
to freed memory then. -/
structure Slot where
  connected : Bool
  waitingBlock : Option Nat

/-- `accepted`, `executed` and `removed` record the blocks that went through the
queue, and `released` those that were freed without. -/
structure State (σ D : Type) where
  blocks : Nat → Option (Block σ D)
  nextBlock : Nat
  clients : Nat → Slot
  queue : List Nat
  executing : Option Nat
  accepted : List Nat
  executed : List Nat
  removed : List Nat
  released : List Nat

/-- The block that waits at a connected client. -/
def Slot.waiting (slot : Slot) : Option Nat :=
  if slot.connected then slot.waitingBlock else none

/-- The type of the block is that of a collecting one, and so is its union. -/
def Block.collects (block : Block σ D) : Bool :=
  match block.type, block.data with
  | .waiting, .multiple _ | .multiple, .multiple _ => true
  | _, _ => false

/-- The same, for a block that can be executed. -/
def Block.runs (block : Block σ D) : Bool :=
  match block.type, block.data with
  | .direct, .transaction _ | .multiple, .multiple _ => true
  | _, _ => false

namespace State

def waiting (state : State σ D) (slot : Nat) : Option Nat :=
  (state.clients slot).waiting

/-- The blocks that were accepted and not yet removed, oldest first. -/
def pending (state : State σ D) : List Nat :=
  state.executing.toList ++ state.queue

/-! ## Updates of one part of the state -/

def setBlock (state : State σ D) (address : Nat) (block : Option (Block σ D)) : State σ D :=
  { state with blocks := Function.update state.blocks address block }

/-- `malloc`. -/
def allocate (state : State σ D) (block : Block σ D) : State σ D :=
  { state.setBlock state.nextBlock (some block) with nextBlock := state.nextBlock + 1 }

def setClient (state : State σ D) (slot : Nat) (client : Slot) : State σ D :=
  { state with clients := Function.update state.clients slot client }

def setWaitingBlock (state : State σ D) (slot : Nat) (address : Option Nat) : State σ D :=
  state.setClient slot ⟨(state.clients slot).connected, address⟩

def push (state : State σ D) (address : Nat) : State σ D :=
  { state with
    queue := state.queue ++ [address]
    accepted := state.accepted ++ [address] }

end State

/-! ## The functions of `transactions.c` and `client.c` -/

/-- `remove_transaction_block`. -/
def removeTransactionBlock (state : State σ D) (address : Nat) : Option (State σ D) := do
  let block ← state.blocks address
  if block.collects ∨ block.runs then some (state.setBlock address none) else none

/-- `push_tqueue(tx_queue, …)`, of `capacity` entries. -/
def pushTqueue (capacity : Nat) (state : State σ D) (address : Nat) : Option (State σ D) :=
  if state.queue.length < capacity then some (state.push address) else none

/-- `add_transaction`. It waits while the transaction queue is full, and is
false when an allocation fails. -/
def addTransaction (capacity : Nat) (state : State σ D) (slot : Nat)
    (transaction : Transaction σ D) (allocated : Bool) : Option (State σ D × Bool) :=
  match (state.clients slot).waitingBlock, managing : transaction.command.waitingTx with
  | some address, false => do
      let block ← state.blocks address
      match block.data with
      | .transaction _ => none
      | .multiple transactions =>
          if allocated then
            let data := BlockData.multiple (transactions ++ [⟨transaction, managing⟩])
            some (state.setBlock address (some { block with data := data }), true)
          else some (state, false)
  | _, _ => do
      if allocated then
        let block : Block σ D := ⟨.direct, slot, .transaction transaction⟩
        let state ← pushTqueue capacity (state.allocate block) state.nextBlock
        some (state, true)
      else some (state, false)

/-- `free_client`, as far as the waiting block is concerned. -/
def freeClient (state : State σ D) (slot : Nat) : Option (State σ D) :=
  match (state.clients slot).waitingBlock with
  | none => some state
  | some address => do
      let state ← removeTransactionBlock state address
      some { state with released := state.released ++ [address] }

/-- `terminate_connection`, which asserts that the client is found. -/
def terminateConnection (state : State σ D) (slot : Nat) : Option (State σ D) :=
  if (state.clients slot).connected then
    freeClient (state.setClient slot ⟨false, (state.clients slot).waitingBlock⟩) slot
  else none

/-- `add_client`, into a slot without a client. -/
def addClient (state : State σ D) (slot : Nat) : Option (State σ D) :=
  if (state.clients slot).connected then none else some (state.setClient slot ⟨true, none⟩)

/-! ## Commands -/

/-- `MULTI`; its `malloc` may fail. -/
def runMulti (state : State σ D) (slot : Nat) (allocated : Bool) : State σ D :=
  match (state.clients slot).waitingBlock with
  | some _ => state
  | none =>
      if allocated then
        (state.allocate ⟨.waiting, slot, .multiple []⟩).setWaitingBlock slot
          (some state.nextBlock)
      else state

/-- `EXEC`. The type of the block changes before it is known whether the queue
has room. -/
def runExec (capacity : Nat) (state : State σ D) (slot : Nat) : Option (State σ D) :=
  match (state.clients slot).waitingBlock with
  | none => some state
  | some address => do
      let block ← state.blocks address
      let state := state.setBlock address (some { block with type := .multiple })
      match pushTqueue capacity state address with
      | none => some state
      | some state => some (state.setWaitingBlock slot none)

/-- `DISCARD`. -/
def runDiscard (state : State σ D) (slot : Nat) : Option (State σ D) :=
  match (state.clients slot).waitingBlock with
  | none => some state
  | some address => do
      let state ← removeTransactionBlock state address
      some { state.setWaitingBlock slot none with released := state.released ++ [address] }

/-- What one command meets: whether `malloc` succeeds, and the client that a
CLIENT KILL terminates. -/
structure Circumstance where
  allocated : Bool
  killed : Option Nat

/-- `execute_transaction`, as far as blocks and connections are concerned. -/
def executeTransaction (capacity : Nat) (state : State σ D) (client : Option Nat)
    (transaction : Transaction σ D) (circumstance : Circumstance) : Option (State σ D) :=
  match transaction.command, client with
  | .multi, some slot => some (runMulti state slot circumstance.allocated)
  | .exec, some slot => runExec capacity state slot
  | .discard, some slot => runDiscard state slot
  | .client, _ =>
      match circumstance.killed with
      | none => some state
      | some target => terminateConnection state target
  | _, _ => some state

def executeTransactions (capacity : Nat) (client : Option Nat) :
    State σ D → List (Transaction σ D) → List Circumstance → Option (State σ D)
  | state, [], [] => some state
  | state, transaction :: rest, circumstance :: others => do
      let state ← executeTransaction capacity state client transaction circumstance
      executeTransactions capacity client state rest others
  | _, _, _ => none

/-- The `client` of `execute_transaction_block`: `NULL` once it is gone. -/
def connectedClient (state : State σ D) (slot : Nat) : Option Nat :=
  if (state.clients slot).connected then some slot else none

/-- `execute_transaction_block`. The reply of a `TX_MULTIPLE` block is written
to `client->write_buf`, also when `client` is `NULL`. -/
def executeTransactionBlock (capacity : Nat) (state : State σ D) (address : Nat)
    (circumstances : List Circumstance) : Option (State σ D) := do
  let block ← state.blocks address
  let client := connectedClient state block.client
  match block.type, block.data with
  | .direct, .transaction transaction =>
      executeTransactions capacity client state [transaction] circumstances
  | .multiple, .multiple transactions =>
      if client = none then none
      else
        executeTransactions capacity client state (transactions.map Subtype.val) circumstances
  | .waiting, _ => some state
  | _, _ => none

/-! ## Steps -/

inductive Action (σ D : Type) where
  | connect (slot : Nat)
  | terminate (slot : Nat)
  /-- An I/O thread enqueues a command it read for the client of the slot. -/
  | enqueue (slot : Nat) (transaction : Transaction σ D) (allocated : Bool)
  /-- The two halves of the loop of `transaction_thread`. -/
  | pop
  | execute (circumstances : List Circumstance)

/-- `pop_tqueue(tx_queue, …)`. -/
def popTqueue (state : State σ D) : Option (State σ D) :=
  match state.executing, state.queue with
  | none, address :: rest => some { state with executing := some address, queue := rest }
  | _, _ => none

/-- `execute_transaction_block` and `remove_transaction_block` on the popped block. -/
def executeBlock (capacity : Nat) (state : State σ D) (circumstances : List Circumstance) :
    Option (State σ D) := do
  let address ← state.executing
  let state ← executeTransactionBlock capacity state address circumstances
  let state := { state with executed := state.executed ++ [address] }
  let state ← removeTransactionBlock state address
  some { state with executing := none, removed := state.removed ++ [address] }

def step (capacity : Nat) (state : State σ D) : Action σ D → Option (State σ D)
  | .connect slot => addClient state slot
  | .terminate slot => terminateConnection state slot
  | .enqueue slot transaction allocated =>
      (addTransaction capacity state slot transaction allocated).map Prod.fst
  | .pop => popTqueue state
  | .execute circumstances => executeBlock capacity state circumstances

/-- The server before its first connection. -/
def start : State σ D where
  blocks _ := none
  nextBlock := 0
  clients _ := ⟨false, none⟩
  queue := []
  executing := none
  accepted := []
  executed := []
  removed := []
  released := []

/-! ## The places of a block -/

/-- The waiting block of a client, an entry of the queue, or the block that is
executed. -/
inductive Place where
  | waiting (slot : Nat)
  | queued (index : Nat)
  | executing

def State.At (state : State σ D) : Place → Nat → Prop
  | .waiting slot, address => state.waiting slot = some address
  | .queued index, address => state.queue[index]? = some address
  | .executing, address => state.executing = some address

end TellyDB.Server.BlockOwnership
