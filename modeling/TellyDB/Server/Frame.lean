import TellyDB.Server.Effects

/-!
Owns what the small functions of the pipeline leave alone, and the shape of the
state after one transaction and after one block.
-/

namespace TellyDB.Server

open Resp Lib

variable {σ D K : Type} {threads : Nat}

/-! ## I/O requests and writes -/

section Requests

variable (state : State σ D K threads) (slot origin : Nat) (type : IoOpType)

/-- A thread gets the request behind its other operations, or nothing happens. -/
theorem addIoRequest_cases [NeZero threads] :
    addIoRequest state slot origin type = state ∨
      ∃ id, (state.clients slot).id = some id ∧
        addIoRequest state slot origin type =
          state.updateThread (Fin.ofNat threads id) fun thread =>
            { thread with queue := thread.queue ++ [⟨slot, origin, type⟩] } := by
  unfold addIoRequest
  split
  · exact .inl rfl
  · next id occupied =>
      split
      · exact .inr ⟨id, occupied, rfl⟩
      · exact .inl rfl

/-- Adding a request changes the queue of one I/O thread only. -/
theorem addIoRequest_eq [NeZero threads] :
    addIoRequest state slot origin type =
      { state with ioThreads := (addIoRequest state slot origin type).ioThreads } := by
  rcases addIoRequest_cases state slot origin type with same | ⟨id, _, added⟩
  · rw [same]
  · rw [added]
    rfl

theorem operations_queue (thread : IoThread) (operation : IoOperation) :
    IoThread.operations { thread with queue := thread.queue ++ [operation] } =
      thread.operations ++ [operation] :=
  (List.append_assoc _ _ _).symm

theorem operations_updateThread (thread : Fin threads) (update : IoThread → IoThread)
    (other : Fin threads) :
    ((state.updateThread thread update).ioThreads other).operations =
      if other = thread then (update (state.ioThreads thread)).operations
      else (state.ioThreads other).operations := by
  simp only [State.updateThread, Function.update_apply]
  split <;> rfl

theorem operations_addIoRequest [NeZero threads] (thread : Fin threads) :
    ((addIoRequest state slot origin type).ioThreads thread).operations =
        (state.ioThreads thread).operations ∨
      ∃ id, (state.clients slot).id = some id ∧ thread = Fin.ofNat threads id ∧
        ((addIoRequest state slot origin type).ioThreads thread).operations =
          (state.ioThreads thread).operations ++ [⟨slot, origin, type⟩] := by
  rcases addIoRequest_cases state slot origin type with same | ⟨id, occupied, added⟩
  · rw [same]
    exact .inl rfl
  · rw [added, operations_updateThread]
    split
    · next selected =>
        rw [operations_queue, ← selected]
        exact .inr ⟨id, occupied, selected, rfl⟩
    · exact .inl rfl

theorem mem_operations_addIoRequest [NeZero threads] {state : State σ D K threads}
    {slot origin : Nat} {type : IoOpType} {thread : Fin threads} {operation : IoOperation}
    (member : operation ∈ ((addIoRequest state slot origin type).ioThreads thread).operations) :
    operation ∈ (state.ioThreads thread).operations ∨ operation = ⟨slot, origin, type⟩ := by
  rcases operations_addIoRequest state slot origin type thread with same | ⟨_, _, _, added⟩
  · rw [same] at member
    exact .inl member
  · rw [added, List.mem_append, List.mem_singleton] at member
    exact member

/-- A write to a socket shows in the trace only. -/
theorem writeToSocket_eq (written : Written) :
    writeToSocket state slot written =
      state.record (match (state.clients slot).id with
        | none => []
        | some connection => [.wrote connection written]) := by
  unfold writeToSocket
  cases (state.clients slot).id with
  | none => simp [State.record]
  | some connection => rfl

end Requests

/-! ## One transaction -/

theorem connectedClient_eq_some {state : State σ D K threads} {slot found : Nat}
    (connected : connectedClient state slot = some found) :
    found = slot ∧ ∃ id, (state.clients slot).id = some id := by
  unfold connectedClient at connected
  split at connected
  · next occupied =>
      cases connected
      exact ⟨rfl, Option.isSome_iff_exists.mp occupied⟩
  · cases connected

section Transactions

variable [DecidableEq K] {config : Config σ D K} {state : State σ D K threads}
  {client : Option Nat} {password : Nat} {transaction : Transaction σ D} {block : Option Tag}

/-- The password does not grant all permissions the command requires. -/
def refuses (passwords : Passwords K) (password : Nat) (command : Command σ D) : Bool :=
  (passwords.permissions password).any fun held =>
    held &&& command.permissions != command.permissions

/-- The two ways of a transaction: it is refused for lack of permission, or its
command runs. -/
theorem executeTransaction_cases {next : State σ D K threads} {response : Response}
    (executed : executeTransaction config state client password transaction block =
      some (next, response)) :
    (∃ slot, client = some slot ∧ response = Response.empty ∧
      refuses state.passwords password transaction.command = true ∧
      next = (writeMessage state slot (block.getD transaction.tag) noPermissions).record
        [.executed ⟨transaction, password, true, block, noPermissions⟩]) ∨
    (∃ after, transaction.command.runOn config state (transaction.entry client password) =
        some (after, response) ∧
      next = after.record
        [.executed ⟨transaction, password, client.isSome, block, response.bytes⟩]) := by
  rcases Option.bind_eq_some_iff.mp executed with ⟨held, holds, executed⟩
  split at executed
  · next lacks =>
      rcases Option.bind_eq_some_iff.mp executed with ⟨slot, rfl, executed⟩
      cases executed
      refine .inl ⟨slot, rfl, rfl, ?_, rfl⟩
      rw [refuses, holds]
      exact bne_iff_ne.mpr lacks
  · rcases Option.bind_eq_some_iff.mp executed with ⟨⟨after, returned⟩, ran, executed⟩
    cases executed
    exact .inr ⟨after, ran, rfl⟩

/-- Without the permissions it requires a command does not run. -/
theorem executeTransaction_refused {next : State σ D K threads} {response : Response}
    (executed : executeTransaction config state client password transaction block =
      some (next, response))
    (refused : refuses state.passwords password transaction.command = true) :
    ∃ slot, client = some slot ∧ response = Response.empty ∧
      next = (writeMessage state slot (block.getD transaction.tag) noPermissions).record
        [.executed ⟨transaction, password, true, block, noPermissions⟩] := by
  rcases Option.bind_eq_some_iff.mp executed with ⟨held, holds, executed⟩
  rw [refuses, holds, Option.any_some, bne_iff_ne] at refused
  rw [if_pos refused] at executed
  rcases Option.bind_eq_some_iff.mp executed with ⟨slot, rfl, executed⟩
  cases executed
  exact ⟨slot, rfl, rfl, rfl⟩

/-- What a transaction does before its reply: it is refused for lack of permission,
its command manages no block, or it manages one. -/
inductive Turn (config : Config σ D K) (client : Option Nat) (password : Nat)
    (transaction : Transaction σ D) (block : Option Tag) (state : State σ D K threads) :
    State σ D K threads → Prop
  | denied (slot : Nat) (own : client = some slot) :
      Turn config client password transaction block state
        (writeMessage state slot (block.getD transaction.tag) noPermissions)
  | ordinary (next : State σ D K threads) (managesNone : transaction.command.waitingTx = false)
      (change : Ordinary (resetsPasswords transaction.command transaction.args = true)
        (killsClient transaction.command transaction.args = true) client state next) :
      Turn config client password transaction block state next
  | managed (next : State σ D K threads) (managesOne : transaction.command.waitingTx = true)
      (change : Manages config (transaction.entry client password) state transaction.command
        next) :
      Turn config client password transaction block state next

omit [DecidableEq K] in
theorem Turn.undisturbed {next : State σ D K threads}
    (turn : Turn config client password transaction block state next) :
    Undisturbed (resetsPasswords transaction.command transaction.args = true)
      (killsClient transaction.command transaction.args = true) client state next := by
  cases turn with
  | denied slot own =>
      rw [writeMessage, writeToSocket_eq]
      exact Undisturbed.refl.congr
  | ordinary next managesNone change => exact change.toUndisturbed
  | managed next managesOne change => exact change.undisturbed _ _

/-- A transaction takes its turn, replies, and is recorded. -/
theorem executeTransaction_turn {after : State σ D K threads} {response : Response}
    (executed : executeTransaction config state client password transaction block =
      some (after, response)) :
    ∃ next writeBufs reply,
      Turn config client password transaction block state next ∧
      after = State.record { next with writeBufs := writeBufs }
        [.executed ⟨transaction, password, client.isSome, block, reply⟩] := by
  rcases executeTransaction_cases executed with ⟨slot, own, _, _, rfl⟩ | ⟨ran, returned, rfl⟩
  · rw [own]
    exact ⟨_, _, noPermissions, .denied slot rfl, rfl⟩
  · rcases runOn_cases returned with ⟨next, does, replies⟩
    have same := replies.eq
    simp only at same
    rw [same]
    refine ⟨next, _, response.bytes, ?_, rfl⟩
    rcases does with ⟨managesOne, manages⟩ | ⟨managesNone, ordinary⟩
    · exact .managed next managesOne manages
    · exact .ordinary next managesNone ordinary

theorem executeTransaction_undisturbed {after : State σ D K threads} {response : Response}
    (executed : executeTransaction config state client password transaction block =
      some (after, response)) :
    Undisturbed (resetsPasswords transaction.command transaction.args = true)
      (killsClient transaction.command transaction.args = true) client state after := by
  rcases executeTransaction_turn executed with ⟨next, writeBufs, reply, turn, rfl⟩
  exact { turn.undisturbed with }

/-- What every transaction of a block keeps, the block keeps. -/
theorem executeTransactions_induction (kept : State σ D K threads → Prop) {exec : Tag}
    {transactions : List (QueuedTransaction σ D)}
    (step : ∀ transaction ∈ transactions, ∀ before after response, kept before →
      executeTransaction config before client password transaction.val (some exec) =
        some (after, response) → kept after)
    {after : State σ D K threads} {results : List Bytes} (initial : kept state)
    (executed : executeTransactions config client password exec state transactions =
      some (after, results)) : kept after := by
  induction transactions generalizing state results with
  | nil =>
      cases executed
      exact initial
  | cons transaction rest inductionHypothesis =>
      rcases Option.bind_eq_some_iff.mp executed with ⟨⟨middle, response⟩, first, executed⟩
      rcases Option.bind_eq_some_iff.mp executed with ⟨⟨last, others⟩, second, executed⟩
      cases executed
      have here := step transaction List.mem_cons_self state middle response initial first
      exact inductionHypothesis
        (fun other member => step other (List.mem_cons_of_mem _ member)) here second

end Transactions

/-! ## One block -/

section Blocks

variable [DecidableEq K] {config : Config σ D K} {state next : State σ D K threads}
  {block : TransactionBlock σ D}

/-- A `TX_DIRECT` block answers, if its command returned something. -/
theorem executeTransactionBlock_direct {transaction : Transaction σ D}
    (data : block.data = .direct transaction)
    (executed : executeTransactionBlock config state block = some next) :
    ∃ after response, executeTransaction config state (connectedClient state block.client)
        block.password transaction none = some (after, response) ∧
      (next = { after with txThread := .idle } ∨
        connectedClient state block.client = some block.client ∧
        next = { after with
          txThread := .responding block.client transaction.tag
            (response.toWrite (after.clients block.client).writeBuf) response.bytes }) := by
  unfold executeTransactionBlock at executed
  rw [data] at executed
  rcases Option.bind_eq_some_iff.mp executed with ⟨⟨after, response⟩, ran, executed⟩
  refine ⟨after, response, ran, ?_⟩
  simp only at executed
  split at executed
  · rcases Option.bind_eq_some_iff.mp executed with ⟨slot, connected, executed⟩
    rcases connectedClient_eq_some connected with ⟨rfl, _⟩
    cases executed
    exact .inr ⟨connected, rfl⟩
  · cases executed
    exact .inl rfl

/-- A `TX_MULTIPLE` block always answers, out of the `write_buf`. -/
theorem executeTransactionBlock_multiple {exec : Tag}
    {transactions : List (QueuedTransaction σ D)}
    (data : block.data = .multiple exec transactions)
    (executed : executeTransactionBlock config state block = some next) :
    ∃ after results, executeTransactions config (connectedClient state block.client)
        block.password exec state transactions = some (after, results) ∧
      connectedClient state block.client = some block.client ∧
      next = { after.store (after.clients block.client).writeBuf (blockReply results) with
        txThread := .responding block.client exec
          (.buffer (after.clients block.client).writeBuf (blockReply results).length)
          (blockReply results) } := by
  unfold executeTransactionBlock at executed
  rw [data] at executed
  rcases Option.bind_eq_some_iff.mp executed with ⟨⟨after, results⟩, ran, executed⟩
  rcases Option.bind_eq_some_iff.mp executed with ⟨slot, connected, executed⟩
  rcases Option.bind_eq_some_iff.mp executed with ⟨⟨stored, response⟩, replied, executed⟩
  rcases connectedClient_eq_some connected with ⟨rfl, _⟩
  unfold bufferedReply at replied
  split at replied
  · cases replied
    cases executed
    exact ⟨after, results, ran, connected, rfl⟩
  · cases replied

/-- What every transaction of a block keeps, and the end of the block. Errors are
answers to the block, and a command that manages a block is executed alone. -/
theorem executeTransactionBlock_induction (kept : State σ D K threads → Prop)
    (initial : kept state)
    (step : ∀ transaction ∈ block.transactions, ∀ exec before after response,
      exec.getD transaction.tag = block.tag →
      (transaction.command.waitingTx = true → before = state) → kept before →
      executeTransaction config before (connectedClient state block.client) block.password
        transaction exec = some (after, response) → kept after)
    (executed : executeTransactionBlock config state block = some next) :
    ∃ after writeBufs, kept after ∧
      (next = { after with txThread := .idle } ∨
        connectedClient state block.client = some block.client ∧
        ∃ toWrite produced, next = { after with
          writeBufs := writeBufs
          txThread := .responding block.client block.tag toWrite produced }) := by
  cases data : block.data with
  | direct transaction =>
      rcases executeTransactionBlock_direct data executed with ⟨after, response, ran, ended⟩
      have member : transaction ∈ block.transactions := by
        rw [TransactionBlock.transactions, data]
        exact List.mem_singleton_self _
      have tag : block.tag = transaction.tag := by rw [TransactionBlock.tag, data]
      have keptAfter :=
        step transaction member none state after response tag.symm (fun _ => rfl) initial ran
      refine ⟨after, after.writeBufs, keptAfter, ?_⟩
      rw [tag]
      exact ended.imp_right fun answered => ⟨answered.1, _, _, answered.2⟩
  | multiple exec transactions =>
      rcases executeTransactionBlock_multiple data executed with
        ⟨after, results, ran, connected, ended⟩
      have tag : block.tag = exec := by rw [TransactionBlock.tag, data]
      have keptAfter : kept after := by
        refine executeTransactions_induction kept ?_ initial ran
        intro transaction member before after response
        apply step transaction.val
        · rw [TransactionBlock.transactions, data]
          exact List.mem_map_of_mem member
        · exact tag.symm
        · rw [transaction.property]
          exact nofun
      rw [tag]
      exact ⟨after, _, keptAfter, .inr ⟨connected, _, _, ended⟩⟩

theorem executeTransactionBlock_undisturbed
    (executed : executeTransactionBlock config state block = some next) :
    ∃ after writeBufs,
      Undisturbed (block.anyCommand resetsPasswords = true)
        (block.anyCommand killsClient = true) (connectedClient state block.client) state after ∧
      (next = { after with txThread := .idle } ∨
        connectedClient state block.client = some block.client ∧
        ∃ toWrite produced, next = { after with
          writeBufs := writeBufs
          txThread := .responding block.client block.tag toWrite produced }) := by
  refine executeTransactionBlock_induction _ Undisturbed.refl ?_ executed
  intro transaction member exec before after response _ _ kept ran
  apply kept.trans
  apply (executeTransaction_undisturbed ran).mono
  · intro resets
    exact List.any_eq_true.mpr ⟨transaction, member, resets⟩
  · intro kills
    exact List.any_eq_true.mpr ⟨transaction, member, kills⟩

end Blocks

/-! ## One step -/

section Steps

variable [NeZero threads] [DecidableEq K]

/-- What one step can do, with what it was enabled by. -/
inductive Stepped (config : Config σ D K) (state : State σ D K threads) :
    Action σ D threads → State σ D K threads → Prop
  | rejected : Stepped config state .accept state
  | connected (slot : Nat) (admitted : acceptRefused config state = false)
      (available : getAvailableClientSlot config.maxClients state.clients
        state.lastConnectionClientId = some slot) :
      Stepped config state .accept { state with
        clients := Function.update state.clients slot
          (newClient config state.passwords state.lastConnectionClientId)
        clientCount := state.clientCount + 1
        lastConnectionClientId := state.lastConnectionClientId + 1 }
  | event (slot origin : Nat) (closed : Bool) :
      Stepped config state (.event slot origin closed)
        (addIoRequest state slot origin (if closed then .terminate else .read))
  | popped (thread : Fin threads) (operation : IoOperation) (rest : List IoOperation)
      (idle : (state.ioThreads thread).activity = .idle)
      (queue : (state.ioThreads thread).queue = operation :: rest) :
      Stepped config state (.ioPop thread)
        (state.updateThread thread fun _ => ⟨rest, .popped operation⟩)
  | dropped (thread : Fin threads) (operation : IoOperation)
      (held : (state.ioThreads thread).activity = .popped operation)
      (gone : (state.clients operation.client).id = none) :
      Stepped config state (.ioPerform thread) (state.setActivity thread .idle)
  | terminated (thread : Fin threads) (operation : IoOperation) (id found : Nat)
      (held : (state.ioThreads thread).activity = .popped operation)
      (occupied : (state.clients operation.client).id = some id)
      (type : operation.type = .terminate)
      (same : (state.clients found).id = some id) :
      Stepped config state (.ioPerform thread)
        ((State.setActivity { state.updateClient found Client.removed with
          clientCount := state.clientCount - 1 } thread .idle).record
            [.terminated operation.origin id])
  | reading (thread : Fin threads) (operation : IoOperation) (id : Nat)
      (held : (state.ioThreads thread).activity = .popped operation)
      (occupied : (state.clients operation.client).id = some id)
      (type : operation.type = .read) :
      Stepped config state (.ioPerform thread)
        (state.setActivity thread (.reading operation.client id))
  | wrote (thread : Fin threads) (operation : IoOperation) (id sequence : Nat)
      (toWrite : ToWrite) (produced : Bytes)
      (held : (state.ioThreads thread).activity = .popped operation)
      (occupied : (state.clients operation.client).id = some id)
      (type : operation.type = .write sequence toWrite produced) :
      Stepped config state (.ioPerform thread)
        ((state.setActivity thread .idle).record
          [.wrote id ⟨⟨operation.origin, sequence⟩, produced, state.contents toWrite⟩])
  | locked (thread : Fin threads) (input : Input σ D) (allocated : Bool) (slot origin id : Nat)
      (activity : (state.ioThreads thread).activity = .reading slot origin)
      (occupied : (state.clients slot).id = some id)
      (isLocked : (state.clients slot).locked = true) :
      Stepped config state (.readNext thread input allocated)
        ((state.countCommand origin).record
          [.wrote id ⟨⟨origin, state.sent origin⟩, lockedMessage, lockedMessage⟩])
  | unknown (thread : Fin threads) (name : Bytes) (allocated : Bool) (slot origin id : Nat)
      (activity : (state.ioThreads thread).activity = .reading slot origin)
      (occupied : (state.clients slot).id = some id)
      (unlocked : (state.clients slot).locked = false) :
      Stepped config state (.readNext thread (.unknown name) allocated)
        (addIoRequest (state.countCommand origin) slot origin
          (.write (state.sent origin) (.bytes (unknownCommand name)) (unknownCommand name)))
  | limited (thread : Fin threads) (command : Command σ D) (args : List Bytes)
      (slot origin id : Nat)
      (activity : (state.ioThreads thread).activity = .reading slot origin)
      (occupied : (state.clients slot).id = some id)
      (unlocked : (state.clients slot).locked = false) :
      Stepped config state (.readNext thread (.known command args) false)
        (((state.countCommand origin).setActivity thread .idle).record
          [.wrote id ⟨⟨origin, state.sent origin⟩, limitMessage, limitMessage⟩])
  | queued (thread : Fin threads) (command : Command σ D) (args : List Bytes)
      (slot origin id : Nat) (block : WaitingBlock σ D)
      (activity : (state.ioThreads thread).activity = .reading slot origin)
      (occupied : (state.clients slot).id = some id)
      (waiting : (state.clients slot).waitingBlock = some block)
      (managesNone : command.waitingTx = false)
      (unlocked : (state.clients slot).locked = false) :
      Stepped config state (.readNext thread (.known command args) true)
        ((((state.countCommand origin).setWaitingBlock slot
            (some { block with transactions := block.transactions ++
              [⟨prepareTransaction (state.clients slot) command args
                ⟨origin, state.sent origin⟩, managesNone⟩] })).record
          [.accepted (prepareTransaction (state.clients slot) command args
            ⟨origin, state.sent origin⟩)]).setActivity thread
              (.added slot ⟨origin, state.sent origin⟩ command.waitingTx))
  | enqueued (thread : Fin threads) (command : Command σ D) (args : List Bytes)
      (slot origin id : Nat)
      (activity : (state.ioThreads thread).activity = .reading slot origin)
      (occupied : (state.clients slot).id = some id)
      (direct : (state.clients slot).waitingBlock = none ∨ command.waitingTx = true)
      (room : state.txQueue.length < config.maxTransactionBlocks)
      (unlocked : (state.clients slot).locked = false) :
      Stepped config state (.readNext thread (.known command args) true)
        ((State.record { state.countCommand origin with
            txQueue := state.txQueue ++ [⟨slot, (state.clients slot).password,
              .direct (prepareTransaction (state.clients slot) command args
                ⟨origin, state.sent origin⟩)⟩] }
          [.accepted (prepareTransaction (state.clients slot) command args
            ⟨origin, state.sent origin⟩)]).setActivity thread
              (.added slot ⟨origin, state.sent origin⟩ command.waitingTx))
  | answered (thread : Fin threads) (slot id : Nat) (tag : Tag)
      (activity : (state.ioThreads thread).activity = .added slot tag false)
      (occupied : (state.clients slot).id = some id)
      (waiting : (state.clients slot).waitingBlock.isSome) :
      Stepped config state (.readQueued thread)
        ((state.setActivity thread (.reading slot tag.origin)).record
          [.wrote id ⟨tag, queuedMessage, queuedMessage⟩])
  | unanswered (thread : Fin threads) (slot id : Nat) (tag : Tag) (waitingTx : Bool)
      (activity : (state.ioThreads thread).activity = .added slot tag waitingTx)
      (occupied : (state.clients slot).id = some id) :
      Stepped config state (.readQueued thread)
        (state.setActivity thread (.reading slot tag.origin))
  | ended (thread : Fin threads) (slot origin : Nat)
      (activity : (state.ioThreads thread).activity = .reading slot origin) :
      Stepped config state (.readEnd thread false) (state.setActivity thread .idle)
  | streamEnded (thread : Fin threads) (slot origin : Nat)
      (activity : (state.ioThreads thread).activity = .reading slot origin) :
      Stepped config state (.readEnd thread true)
        (addIoRequest (state.setActivity thread .idle) slot origin .terminate)
  | blockPopped (block : TransactionBlock σ D) (rest : List (TransactionBlock σ D))
      (idle : state.txThread = .idle) (queue : state.txQueue = block :: rest) :
      Stepped config state .txPop { state with txQueue := rest, txThread := .popped block }
  | executed (block : TransactionBlock σ D) (next : State σ D K threads)
      (held : state.txThread = .popped block)
      (ran : executeTransactionBlock config state block = some next) :
      Stepped config state .txExecute next
  | responded (slot : Nat) (tag : Tag) (toWrite : ToWrite) (produced : Bytes)
      (responding : state.txThread = .responding slot tag toWrite produced) :
      Stepped config state .txRespond
        (addIoRequest { state with txThread := .idle } slot tag.origin
          (.write tag.sequence toWrite produced))

variable {config : Config σ D K} {state next : State σ D K threads}

omit [NeZero threads] [DecidableEq K] in
theorem writeToSocket_occupied (state : State σ D K threads) {slot id : Nat}
    (occupied : (state.clients slot).id = some id) (written : Written) :
    writeToSocket state slot written = state.record [.wrote id written] := by
  rw [writeToSocket_eq, occupied]

omit [NeZero threads] [DecidableEq K] in
theorem getAvailableClientSlot_free {maxClients slot id : Nat} {clients : Nat → Client σ D}
    (available : getAvailableClientSlot maxClients clients id = some slot) :
    (clients slot).id = none :=
  Option.isNone_iff_eq_none.mp (RingWalk.walk_stops available)

theorem acceptClient_stepped (accepted : acceptClient config state = some next) :
    Stepped config state .accept next := by
  unfold acceptClient at accepted
  split at accepted
  · cases accepted
    exact .rejected
  · next admitted =>
      rcases Option.bind_eq_some_iff.mp accepted with ⟨slot, available, added⟩
      cases added
      exact .connected slot (Bool.eq_false_iff.mpr admitted) available

theorem popOperation_stepped {thread : Fin threads}
    (popped : popOperation state thread = some next) :
    Stepped config state (.ioPop thread) next := by
  unfold popOperation at popped
  split at popped
  · next operation rest idle queue =>
      cases popped
      exact .popped thread operation rest idle queue
  · cases popped

theorem performOperation_stepped {thread : Fin threads}
    (performed : performOperation config state thread = some next) :
    Stepped config state (.ioPerform thread) next := by
  unfold performOperation at performed
  split at performed
  · next operation held =>
      simp only at performed
      split at performed
      · next gone =>
          cases performed
          exact .dropped thread operation held gone
      · next id occupied =>
          split at performed
          · next type =>
              rcases Option.bind_eq_some_iff.mp performed with ⟨left, terminated, performed⟩
              rcases terminateConnection_eq terminated with ⟨other, found, had, same, rfl⟩
              rw [occupied, Option.some.injEq] at had
              subst had
              cases performed
              exact .terminated thread operation id found held occupied type same
          · next type =>
              cases performed
              exact .reading thread operation id held occupied type
          · next sequence toWrite produced type =>
              cases performed
              rw [writeToSocket_occupied (state.setActivity thread .idle) occupied]
              exact .wrote thread operation id sequence toWrite produced held occupied type
  · cases performed

theorem readNext_stepped {thread : Fin threads} {input : Input σ D} {allocated : Bool}
    (read : readNext config state thread input allocated = some next) :
    Stepped config state (.readNext thread input allocated) next := by
  unfold readNext at read
  split at read
  · next slot origin activity =>
      split at read
      · cases read
      · next connected =>
          rcases Option.ne_none_iff_exists'.mp connected with ⟨id, occupied⟩
          simp only at read
          split at read
          · next isLocked =>
              cases read
              rw [writeMessage,
                writeToSocket_occupied (state.countCommand origin) occupied]
              exact .locked thread input allocated slot origin id activity occupied isLocked
          · next notLocked =>
            have unlocked := Bool.eq_false_iff.mpr notLocked
            cases input with
            | unknown name =>
                cases read
                exact .unknown thread name allocated slot origin id activity occupied unlocked
            | known command args =>
                rcases Option.bind_eq_some_iff.mp read with ⟨⟨added, success⟩, add, read⟩
                unfold addTransaction at add
                cases allocated with
                | false =>
                    cases add
                    cases read
                    rw [writeMessage, writeToSocket_occupied
                      ((state.countCommand origin).setActivity thread .idle) occupied]
                    exact .limited thread command args slot origin id activity occupied unlocked
                | true =>
                    simp only [Bool.true_eq_false, ↓reduceIte] at add
                    split at add
                    · next block waiting flag =>
                        cases add
                        cases read
                        exact .queued thread command args slot origin id block activity occupied
                          waiting flag unlocked
                    · next otherwise =>
                        split at add
                        · next room =>
                            cases add
                            cases read
                            refine .enqueued thread command args slot origin id activity
                              occupied ?_ room unlocked
                            cases waiting : (state.clients slot).waitingBlock with
                            | none => exact .inl rfl
                            | some block =>
                                cases flag : command.waitingTx with
                                | true => exact .inr rfl
                                | false => exact (otherwise block waiting flag).elim
                        · cases add
  · cases read

theorem readQueued_stepped {thread : Fin threads}
    (read : readQueued state thread = some next) :
    Stepped config state (.readQueued thread) next := by
  unfold readQueued at read
  split at read
  · next slot tag waitingTx activity =>
      split at read
      · cases read
      · next connected =>
          rcases Option.ne_none_iff_exists'.mp connected with ⟨id, occupied⟩
          simp only at read
          split at read
          · next waiting =>
              cases read
              rw [writeMessage, writeToSocket_occupied
                (state.setActivity thread (.reading slot tag.origin)) occupied]
              rw [waiting.2] at activity
              exact .answered thread slot id tag activity occupied waiting.1
          · cases read
            exact .unanswered thread slot id tag waitingTx activity occupied
  · cases read

theorem readEnd_stepped {thread : Fin threads} {endOfStream : Bool}
    (ended : readEnd state thread endOfStream = some next) :
    Stepped config state (.readEnd thread endOfStream) next := by
  unfold readEnd at ended
  split at ended
  · next slot origin activity =>
      cases endOfStream with
      | false =>
          cases ended
          exact .ended thread slot origin activity
      | true =>
          cases ended
          exact .streamEnded thread slot origin activity
  · cases ended

theorem step_stepped {action : Action σ D threads}
    (stepped : step config state action = some next) : Stepped config state action next := by
  cases action with
  | accept => exact acceptClient_stepped stepped
  | event slot origin closed =>
      cases stepped
      exact .event slot origin closed
  | ioPop thread => exact popOperation_stepped stepped
  | ioPerform thread => exact performOperation_stepped stepped
  | readNext thread input allocated => exact readNext_stepped stepped
  | readQueued thread => exact readQueued_stepped stepped
  | readEnd thread endOfStream => exact readEnd_stepped stepped
  | txPop =>
      have taken : popBlock state = some next := stepped
      unfold popBlock at taken
      split at taken
      · next block rest idle queue =>
          cases taken
          exact .blockPopped block rest idle queue
      · cases taken
  | txExecute =>
      have taken : executeBlock config state = some next := stepped
      unfold executeBlock at taken
      split at taken
      · next block held => exact .executed block next held taken
      · cases taken
  | txRespond =>
      have taken : respond state = some next := stepped
      unfold respond at taken
      split at taken
      · next slot tag toWrite produced responding =>
          cases taken
          exact .responded slot tag toWrite produced responding
      · cases taken

end Steps

end TellyDB.Server
