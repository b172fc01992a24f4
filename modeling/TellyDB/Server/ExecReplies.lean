import TellyDB.Resp.Frames
import TellyDB.Server.Autosave
import TellyDB.Server.ReplyIntegrity
import TellyDB.Server.Speech

/-!
Owns what EXEC answers: the array of the replies that the commands of its block would
get alone, as long as the password of the block permits each of them in its turn, no
command closes the connection, the array fits, and the database is not saved on the way.
-/

namespace TellyDB.Server

open Resp Lib

variable {σ D K : Type} {threads : Nat}

/-! ## The automatic save -/

/-- What `check_autosave` has seen so far, and what it will see: by the tag of a command, the time
after it, and what `save_data` returns then. -/
structure AutosaveThread where
  conf : Autosave
  server : ServerAge
  startedAt : Int
  earlier : List ExecutedCommand
  currentTime : Tag → Int
  saved : Tag → Int
  valid : ∀ tag, currentTime tag ≠ -1

namespace AutosaveThread

variable (thread : AutosaveThread)

def executed (transaction : Transaction σ D) : ExecutedCommand where
  affectDatabase := transaction.command.affectDatabase
  currentTime := thread.currentTime transaction.tag
  saved := thread.saved transaction.tag
  valid := thread.valid transaction.tag

/-- The commands at the end of the block. -/
def after (block : TransactionBlock σ D) : List ExecutedCommand :=
  thread.earlier ++ block.transactions.map thread.executed

/-- None of these commands makes `check_autosave` save. -/
def NeverDue (commands : List ExecutedCommand) : Prop :=
  ∀ first command, first ++ [command] <+: commands →
    ¬(runPolicy thread.conf thread.startedAt first).Due thread.conf command

/-- A save runs into `unreachable()`. -/
theorem unreachable_eq_false_iff {commands : List ExecutedCommand} :
    (runAutosave thread.conf thread.server thread.startedAt commands).unreachable = false ↔
      thread.NeverDue commands := by
  have follows : Follows thread.conf
      (runAutosave thread.conf thread.server thread.startedAt commands)
      (runPolicy thread.conf thread.startedAt commands) := follows_run commands
  rw [NeverDue, ← runPolicy_saves_eq_nil, ← Bool.not_eq_true, follows.unreachable, not_not]

end AutosaveThread

/-- `execute_transaction_block` with its calls of `check_autosave`, one after each command, also
after one that is refused. -/
def executeAutosaving [DecidableEq K] (config : Config σ D K) (thread : AutosaveThread)
    (state : State σ D K threads) (block : TransactionBlock σ D) :
    Option (State σ D K threads) := do
  let executed ← executeTransactionBlock config state block
  if (runAutosave thread.conf thread.server thread.startedAt (thread.after block)).unreachable then
    none
  else some executed

theorem executeAutosaving_eq_some [DecidableEq K] {config : Config σ D K} {thread : AutosaveThread}
    {state next : State σ D K threads} {block : TransactionBlock σ D} :
    executeAutosaving config thread state block = some next ↔
      executeTransactionBlock config state block = some next ∧
        thread.NeverDue (thread.after block) := by
  rw [executeAutosaving, Option.bind_eq_bind, Option.bind_eq_some_iff,
    ← thread.unreachable_eq_false_iff]
  constructor
  · rintro ⟨executed, ran, returned⟩
    split at returned
    · cases returned
    · next normal =>
        cases returned
        exact ⟨ran, Bool.eq_false_of_not_eq_true normal⟩
  · rintro ⟨ran, normal⟩
    exact ⟨next, ran, if_neg (Bool.eq_false_iff.mp normal)⟩

/-! ## What is sent -/

/-- Bytes put on the socket of a connection. -/
def Event.output : Event σ D → Option (Nat × Bytes)
  | .wrote connection written => some (connection, written.sent)
  | _ => none

/-- All that was put on sockets. -/
def State.outputs (state : State σ D K threads) : List (Nat × Bytes) :=
  state.trace.filterMap Event.output

/-- The bytes put on sockets since an earlier state. -/
def State.outputSince (before after : State σ D K threads) : Bytes :=
  ((after.outputs.drop before.outputs.length).map Prod.snd).flatten

/-- The reply the transaction thread is about to request. -/
def TxActivity.produced : TxActivity σ D → Bytes
  | .responding _ _ _ produced => produced
  | _ => []

section Definitions

variable [DecidableEq K] (config : Config σ D K) (slot password : Nat) (exec : Tag)

/-- What answers a transaction that is a block of its own: what is put on the socket at
once, and the reply that is requested. -/
def replyAlone (state : State σ D K threads) (transaction : Transaction σ D) : Option Bytes := do
  let after ← executeTransactionBlock config state ⟨slot, password, .direct transaction⟩
  some (state.outputSince after ++ after.txThread.produced)

/-- What would answer each command of a block alone, at its turn in the block. -/
def repliesAlone : State σ D K threads → List (QueuedTransaction σ D) → Option (List Bytes)
  | _, [] => some []
  | state, transaction :: rest => do
      let reply ← replyAlone config slot password state transaction.val
      let (after, _) ← executeTransaction config state (some slot) password transaction.val
        (some exec)
      let replies ← repliesAlone after rest
      some (reply :: replies)

/-- The password of the block permits each command at its turn, and the client is
connected when the block ends. -/
def permitsBlock : State σ D K threads → List (QueuedTransaction σ D) → Bool
  | state, [] => (state.clients slot).id.isSome
  | state, transaction :: rest =>
      !refuses state.passwords password transaction.val.command &&
        (executeTransaction config state (some slot) password transaction.val (some exec)).all
          fun result => permitsBlock result.1 rest

end Definitions

/-- After the block nothing was put on a socket, and the one request that was added is to
write the reply to its client. -/
structure RequestsOnly [NeZero threads] (state answered : State σ D K threads) (slot : Nat)
    (tag : Tag) (reply : Bytes) : Prop where
  outputs : answered.outputs = state.outputs
  request : ∃ id toWrite, (state.clients slot).id = some id ∧
    answered.contents toWrite = reply ∧
    answered.ioThreads = (state.updateThread (Fin.ofNat threads id) fun thread =>
      { thread with queue :=
        thread.queue ++ [⟨slot, tag.origin, .write tag.sequence toWrite reply⟩] }).ioThreads

/-- Executing the block sends one reply, the array of what its commands would be answered
alone. -/
def AnswersExec [NeZero threads] [DecidableEq K] (config : Config σ D K)
    (thread : AutosaveThread) (state : State σ D K threads) (slot password : Nat) (exec : Tag)
    (transactions : List (QueuedTransaction σ D)) : Prop :=
  ∃ replies executed answered,
    repliesAlone config slot password exec state transactions = some replies ∧
    executeAutosaving config thread state ⟨slot, password, .multiple exec transactions⟩ =
      some executed ∧
    respond executed = some answered ∧
    RequestsOnly state answered slot exec (respArray replies)

/-! ## One command of a block -/

section Turns

variable [DecidableEq K] {config : Config σ D K} {state after : State σ D K threads}
  {slot password : Nat} {exec : Tag} {response : Response}

omit [DecidableEq K] in
theorem outputs_record (state : State σ D K threads) (events : List (Event σ D)) :
    (state.record events).outputs = state.outputs ++ events.filterMap Event.output :=
  List.filterMap_append

/-- A permitted command is executed alone as it is in a block, and writes to no socket. -/
theorem executeTransaction_permitted {client : Option Nat} {block : Option Tag}
    {transaction : QueuedTransaction σ D}
    (executed : executeTransaction config state client password transaction.val block =
      some (after, response))
    (permitted : refuses state.passwords password transaction.val.command = false)
    (other : Option Tag) :
    after.outputs = state.outputs ∧ ∃ alone, alone.outputs = state.outputs ∧
      executeTransaction config state client password transaction.val other =
        some (alone, response) := by
  have turn := executeTransaction_cases executed
  rcases Option.bind_eq_some_iff.mp executed with ⟨held, holds, _⟩
  rcases turn with ⟨_, _, _, refused, _⟩ | ⟨ran, returned, rfl⟩
  · rw [permitted] at refused
    cases refused
  · have silent : ran.outputs = state.outputs := by
      rcases runOn_ordinarily transaction.property _ returned with ⟨next, ordinary, replies⟩
      have same := congrArg State.trace replies.eq
      show ran.trace.filterMap _ = state.trace.filterMap _
      rw [← ordinary.trace]
      exact congrArg _ same
    have grants : ¬ (held &&& transaction.val.command.permissions ≠
        transaction.val.command.permissions) := by
      rw [refuses, holds, Option.any_some] at permitted
      exact fun lacks => Bool.eq_false_iff.mp permitted (bne_iff_ne.mpr lacks)
    have quiet : ∀ execution, (ran.record [.executed execution]).outputs = state.outputs := by
      intro execution
      rw [outputs_record, silent]
      exact List.append_nil _
    refine ⟨quiet _, ran.record
      [.executed ⟨transaction.val, password, client.isSome, other, response.bytes⟩], quiet _, ?_⟩
    show Option.bind (state.passwords.permissions password) _ = _
    rw [holds, Option.bind_some, if_neg grants]
    show Option.bind (transaction.val.command.runOn config state
      (transaction.val.entry client password)) _ = _
    rw [returned]
    rfl

omit [DecidableEq K] in
theorem connectedClient_of_id {id : Nat} (occupied : (state.clients slot).id = some id) :
    connectedClient state slot = some slot := by
  rw [connectedClient, occupied]
  rfl

/-- What a permitted command returns answers it alone. -/
theorem replyAlone_permitted {id : Nat} {block : Option Tag}
    {transaction : QueuedTransaction σ D} (occupied : (state.clients slot).id = some id)
    (executed : executeTransaction config state (some slot) password transaction.val block =
      some (after, response))
    (permitted : refuses state.passwords password transaction.val.command = false) :
    replyAlone config slot password state transaction.val = some response.bytes := by
  rcases (executeTransaction_permitted executed permitted none).2 with ⟨alone, silent, ran⟩
  have nothing : (alone.outputs.drop state.outputs.length) = [] := by
    rw [silent, List.drop_length]
  unfold replyAlone executeTransactionBlock
  simp only [connectedClient_of_id occupied, ran, Option.bind_eq_bind, Option.bind_some]
  split
  · show some (((alone.outputs.drop state.outputs.length).map Prod.snd).flatten ++ _) = _
    rw [nothing]
    rfl
  · next returnsNothing =>
      show some (((alone.outputs.drop state.outputs.length).map Prod.snd).flatten ++ _) = _
      rw [nothing, List.length_eq_zero_iff.mp (not_not.mp returnsNothing)]
      rfl

/-- A command keeps the connection of a client, or closes it. -/
theorem executeTransaction_id (slot : Nat) {client : Option Nat} {block : Option Tag}
    {transaction : Transaction σ D}
    (executed : executeTransaction config state client password transaction block =
      some (after, response)) :
    (after.clients slot).id = (state.clients slot).id ∨ (after.clients slot).id = none := by
  rcases (executeTransaction_undisturbed executed).id slot with same | ⟨_, gone⟩
  · exact .inl same
  · exact .inr gone

/-- A permitted command returns something to its client. -/
theorem executeTransaction_speaks {block : Option Tag} {transaction : QueuedTransaction σ D}
    (answers : transaction.val.command.AnswersClients)
    (executed : executeTransaction config state (some slot) password transaction.val block =
      some (after, response))
    (permitted : refuses state.passwords password transaction.val.command = false) :
    response.bytes ≠ [] := by
  rcases executeTransaction_cases executed with ⟨_, _, _, refused, _⟩ | ⟨ran, returned, _⟩
  · rw [permitted] at refused
    cases refused
  · exact runOn_speaks rfl transaction.property answers _ returned

end Turns

/-! ## The loop of a block -/

section Blocks

variable [DecidableEq K] {config : Config σ D K} {state after : State σ D K threads}
  {slot password : Nat} {exec : Tag} {response : Response}
  {transaction : QueuedTransaction σ D} {transactions rest : List (QueuedTransaction σ D)}
  {replies results : List Bytes}

theorem repliesAlone_cons
    (returned : repliesAlone config slot password exec state (transaction :: rest) =
      some replies) :
    ∃ reply after response others,
      replyAlone config slot password state transaction.val = some reply ∧
      executeTransaction config state (some slot) password transaction.val (some exec) =
        some (after, response) ∧
      repliesAlone config slot password exec after rest = some others ∧
      replies = reply :: others := by
  rcases Option.bind_eq_some_iff.mp returned with ⟨reply, alone, returned⟩
  rcases Option.bind_eq_some_iff.mp returned with ⟨⟨after, response⟩, executed, returned⟩
  rcases Option.bind_eq_some_iff.mp returned with ⟨others, later, returned⟩
  cases returned
  exact ⟨reply, after, response, others, alone, executed, later, rfl⟩

theorem permitsBlock_cons
    (executed : executeTransaction config state (some slot) password transaction.val (some exec) =
      some (after, response)) :
    permitsBlock config slot password exec state (transaction :: rest) = true ↔
      refuses state.passwords password transaction.val.command = false ∧
        permitsBlock config slot password exec after rest = true := by
  rw [permitsBlock, executed, Option.all_some, Bool.and_eq_true, Bool.not_eq_true']

theorem length_repliesAlone
    (returned : repliesAlone config slot password exec state transactions = some replies) :
    replies.length = transactions.length := by
  induction transactions generalizing state replies with
  | nil =>
      cases returned
      rfl
  | cons transaction rest inductionHypothesis =>
      rcases repliesAlone_cons returned with ⟨reply, after, response, others, _, _, later, rfl⟩
      rw [List.length_cons, List.length_cons, inductionHypothesis later]

/-- A client that is connected when the block ends was connected before. -/
theorem permitsBlock_connected
    (returned : repliesAlone config slot password exec state transactions = some replies)
    (permits : permitsBlock config slot password exec state transactions = true) :
    ∃ id, (state.clients slot).id = some id := by
  induction transactions generalizing state replies with
  | nil => exact Option.isSome_iff_exists.mp permits
  | cons transaction rest inductionHypothesis =>
      rcases repliesAlone_cons returned with ⟨reply, after, response, others, _, ran, later, rfl⟩
      rcases inductionHypothesis later ((permitsBlock_cons ran).mp permits).2 with ⟨id, occupied⟩
      rcases executeTransaction_id slot ran with same | gone
      · exact ⟨id, same.symm.trans occupied⟩
      · rw [gone] at occupied
        cases occupied

/-- A block whose commands are permitted returns what answers them alone. -/
theorem executeTransactions_permitted
    (answering : ∀ transaction ∈ transactions, transaction.val.command.AnswersClients)
    (returned : repliesAlone config slot password exec state transactions = some replies)
    (permits : permitsBlock config slot password exec state transactions = true) :
    ∃ final, executeTransactions config (some slot) password exec state transactions =
        some (final, replies) ∧
      final.outputs = state.outputs ∧ (final.clients slot).id = (state.clients slot).id := by
  induction transactions generalizing state replies with
  | nil =>
      cases returned
      exact ⟨state, rfl, rfl, rfl⟩
  | cons transaction rest inductionHypothesis =>
      rcases permitsBlock_connected returned permits with ⟨id, occupied⟩
      rcases repliesAlone_cons returned with ⟨reply, after, response, others, alone, ran, later, rfl⟩
      rcases (permitsBlock_cons ran).mp permits with ⟨permitted, permitsRest⟩
      rcases inductionHypothesis (fun other member => answering other (List.mem_cons_of_mem _ member))
        later permitsRest with ⟨final, executed, silent, connected⟩
      have answer : reply = response.bytes := by
        rw [replyAlone_permitted occupied ran permitted, Option.some.injEq] at alone
        exact alone.symm
      have speaks : response.bytes ≠ [] :=
        executeTransaction_speaks (answering _ List.mem_cons_self) ran permitted
      have stays : (after.clients slot).id = (state.clients slot).id := by
        rcases permitsBlock_connected later permitsRest with ⟨_, still⟩
        rcases executeTransaction_id slot ran with same | gone
        · exact same
        · rw [gone] at still
          cases still
      refine ⟨final, ?_, ?_, connected.trans stays⟩
      · show Option.bind (executeTransaction _ _ _ _ _ _) _ = _
        rw [ran, Option.bind_some]
        show Option.bind (executeTransactions _ _ _ _ _ _) _ = _
        rw [executed, Option.bind_some, answer]
        show some (final, if response.bytes.length = 0 then others else response.bytes :: others) = _
        rw [if_neg (mt List.length_eq_zero_iff.mp speaks)]
      · exact silent.trans (executeTransaction_permitted ran permitted none).1

/-- A block has at most one result for each command. -/
theorem length_executeTransactions {final : State σ D K threads}
    (executed : executeTransactions config (some slot) password exec state transactions =
      some (final, results)) : results.length ≤ transactions.length := by
  induction transactions generalizing state results with
  | nil =>
      cases executed
      exact Nat.le_refl 0
  | cons transaction rest inductionHypothesis =>
      rcases Option.bind_eq_some_iff.mp executed with ⟨⟨middle, response⟩, _, executed⟩
      rcases Option.bind_eq_some_iff.mp executed with ⟨⟨last, others⟩, later, executed⟩
      cases executed
      have fewer := inductionHypothesis later
      split
      · exact Nat.le_succ_of_le fewer
      · exact Nat.succ_le_succ fewer

/-- A block with a result for each command was permitted all of them. -/
theorem permitsBlock_of_length {final : State σ D K threads}
    (executed : executeTransactions config (some slot) password exec state transactions =
      some (final, results))
    (complete : results.length = transactions.length)
    (connected : (final.clients slot).id.isSome) :
    permitsBlock config slot password exec state transactions = true := by
  induction transactions generalizing state results with
  | nil =>
      cases executed
      exact connected
  | cons transaction rest inductionHypothesis =>
      rcases Option.bind_eq_some_iff.mp executed with ⟨⟨middle, response⟩, ran, executed⟩
      rcases Option.bind_eq_some_iff.mp executed with ⟨⟨last, others⟩, later, executed⟩
      cases executed
      have fewer := length_executeTransactions later
      split at complete
      · rw [List.length_cons] at complete
        omega
      · next speaks =>
          refine (permitsBlock_cons ran).mpr ⟨?_, ?_⟩
          · apply Bool.eq_false_iff.mpr
            intro refused
            rcases executeTransaction_refused ran refused with ⟨_, _, rfl, _⟩
            exact speaks rfl
          · exact inductionHypothesis later (Nat.succ.inj complete)

end Blocks

/-! ## The reply of a block -/

section Exec

variable [DecidableEq K] {config : Config σ D K} {thread : AutosaveThread}
  {state final : State σ D K threads} {slot password id : Nat} {exec : Tag}
  {transactions : List (QueuedTransaction σ D)} {replies results : List Bytes}

/-- The header of an array tells its elements from any other number of them. -/
theorem length_of_blockReply (same : blockReply results = respArray replies) :
    results.length = replies.length := by
  have shape : ∀ (count : Nat) (elements : Bytes),
      text "*" ++ decimal count ++ crlf ++ elements =
        0x2a :: (decimal count ++ 0x0d :: (0x0a :: elements)) := by
    intro count elements
    rw [List.append_assoc, List.append_assoc]
    rfl
  rw [blockReply, respArray, shape, shape] at same
  have literals := ((isLiteral_decimal _).ends (isLiteral_decimal _) (List.cons.inj same).2).1
  calc results.length = literalValue (decimal results.length) := (literalValue_decimal _).symm
    _ = literalValue (decimal replies.length) := by rw [literals]
    _ = replies.length := literalValue_decimal _

omit [DecidableEq K] in
/-- The array of the results, in the `write_buf` of the client. -/
def withReply (final : State σ D K threads) (slot : Nat) (results : List Bytes) :
    State σ D K threads :=
  { final.store (final.clients slot).writeBuf (blockReply results) with txThread := .idle }

/-- What is written of that `write_buf`. -/
def replyToWrite (final : State σ D K threads) (slot : Nat) (results : List Bytes) : ToWrite :=
  .buffer (final.clients slot).writeBuf (blockReply results).length

/-- The array is built in the `write_buf` of the client, where it fits. -/
theorem executeTransactionBlock_exec (occupied : (state.clients slot).id = some id)
    (ran : executeTransactions config (some slot) password exec state transactions =
      some (final, results)) :
    executeTransactionBlock config state ⟨slot, password, .multiple exec transactions⟩ =
      if (blockReply results).length ≤ maxResponseSize then
        some { withReply final slot results with
          txThread := .responding slot exec (replyToWrite final slot results)
            (blockReply results) }
      else none := by
  unfold executeTransactionBlock bufferedReply
  simp only [connectedClient_of_id occupied, ran, Option.bind_eq_bind, Option.bind_some]
  split <;> rfl

omit [DecidableEq K] in
theorem contents_withReply (final : State σ D K threads) (slot : Nat) (results : List Bytes) :
    (withReply final slot results).contents (replyToWrite final slot results) =
      blockReply results := by
  simp [State.contents, withReply, replyToWrite, State.store]

theorem executeTransactions_id (slot : Nat) {client : Option Nat}
    (ran : executeTransactions config client password exec state transactions =
      some (final, results)) :
    (final.clients slot).id = (state.clients slot).id ∨ (final.clients slot).id = none := by
  refine executeTransactions_induction (fun reached =>
    (reached.clients slot).id = (state.clients slot).id ∨ (reached.clients slot).id = none)
    ?_ (.inl rfl) ran
  intro transaction _ before after response kept executed
  rcases executeTransaction_id slot executed with same | gone
  · rw [same]
    exact kept
  · exact .inr gone

variable [NeZero threads]

omit [DecidableEq K] in
/-- A request is added for a client that is connected, to a queue that has room. -/
theorem addIoRequest_room (origin : Nat) (type : IoOpType)
    (occupied : (state.clients slot).id = some id)
    (room : (state.ioThreads (Fin.ofNat threads id)).queue.length < ioQueueSize) :
    addIoRequest state slot origin type =
      state.updateThread (Fin.ofNat threads id) fun thread =>
        { thread with queue := thread.queue ++ [⟨slot, origin, type⟩] } := by
  rw [addIoRequest, occupied]
  exact if_pos room

omit [DecidableEq K] in
theorem addIoRequest_changes {origin : Nat} {type : IoOpType}
    (changed : (addIoRequest state slot origin type).ioThreads ≠ state.ioThreads) :
    ∃ id, (state.clients slot).id = some id ∧
      (state.ioThreads (Fin.ofNat threads id)).queue.length < ioQueueSize := by
  unfold addIoRequest at changed
  split at changed
  · exact absurd rfl changed
  · next id occupied =>
      split at changed
      · next room => exact ⟨id, occupied, room⟩
      · exact absurd rfl changed

omit [DecidableEq K] [NeZero threads] in
/-- A request makes the queue of a thread longer. -/
theorem updateThread_ne (thread : Fin threads) (operation : IoOperation) :
    (state.updateThread thread fun current =>
      { current with queue := current.queue ++ [operation] }).ioThreads ≠ state.ioThreads := by
  intro same
  have lengths := congrArg (fun threads => (threads thread).queue.length) same
  simp [State.updateThread] at lengths

omit [DecidableEq K] [NeZero threads] in
/-- The request that was added is the last one of the queue. -/
theorem updateThread_last {thread : Fin threads} {first second : IoOperation}
    (same : (state.updateThread thread fun current =>
        { current with queue := current.queue ++ [first] }).ioThreads =
      (final.updateThread thread fun current =>
        { current with queue := current.queue ++ [second] }).ioThreads) : first = second := by
  have queues := congrArg (fun threads => (threads thread).queue) same
  simp only [State.updateThread, Function.update_self] at queues
  exact (List.cons.inj (List.append_inj' queues rfl).2).1

/-- An EXEC that answers ran its block to the end: each command has a result, the array
fits, and the client is connected and has room for the request. -/
theorem AnswersExec.ran
    (answers : AnswersExec config thread state slot password exec transactions) :
    ∃ final results replies id,
      executeTransactions config (some slot) password exec state transactions =
        some (final, results) ∧
      repliesAlone config slot password exec state transactions = some replies ∧
      blockReply results = respArray replies ∧
      (blockReply results).length ≤ maxResponseSize ∧
      (state.clients slot).id = some id ∧ (final.clients slot).id = some id ∧
      (state.ioThreads (Fin.ofNat threads id)).queue.length < ioQueueSize ∧
      thread.NeverDue (thread.after ⟨slot, password, .multiple exec transactions⟩) := by
  rcases answers with ⟨replies, executed, answered, alone, ran, responded, _, request⟩
  rcases executeAutosaving_eq_some.mp ran with ⟨ran, never⟩
  rcases request with ⟨id, toWrite, occupied, _, requested⟩
  rcases executeTransactionBlock_multiple rfl ran with ⟨final, results, looped, _, _⟩
  rw [connectedClient_of_id occupied] at looped
  rw [executeTransactionBlock_exec occupied looped] at ran
  have quiet := (executeTransactions_keepsReplies looped).ioThreads
  split at ran
  · next fits =>
      cases ran
      have answeredIs : addIoRequest (withReply final slot results) slot exec.origin
          (.write exec.sequence (replyToWrite final slot results) (blockReply results)) =
          answered := Option.some.inj responded
      rw [← answeredIs] at requested
      have changed : (addIoRequest (withReply final slot results) slot exec.origin
          (.write exec.sequence (replyToWrite final slot results)
            (blockReply results))).ioThreads ≠ (withReply final slot results).ioThreads := by
        rw [requested, show (withReply final slot results).ioThreads = state.ioThreads from quiet]
        exact updateThread_ne _ _
      rcases addIoRequest_changes changed with ⟨found, connected, room⟩
      have still : found = id := by
        rcases executeTransactions_id slot looped with same | gone
        · exact Option.some.inj (connected.symm.trans (same.trans occupied))
        · cases connected.symm.trans gone
      subst still
      rw [addIoRequest_room _ _ connected room] at requested
      have reply := updateThread_last requested
      simp only [IoOperation.mk.injEq, IoOpType.write.injEq, true_and] at reply
      rw [← quiet]
      exact ⟨final, results, replies, found, looped, alone, reply.2, fits, occupied, connected,
        room, never⟩
  · cases ran

theorem AnswersExec.permits
    (answers : AnswersExec config thread state slot password exec transactions) :
    permitsBlock config slot password exec state transactions = true := by
  rcases answers.ran with ⟨final, results, replies, id, ran, alone, same, _, _, connected, _⟩
  apply permitsBlock_of_length ran
  · rw [length_of_blockReply same, length_repliesAlone alone]
  · rw [connected]
    rfl

/-- A block that is permitted, fits, has room and causes no save answers. -/
theorem answersExec_of_permits
    (answering : ∀ transaction ∈ transactions, transaction.val.command.AnswersClients)
    (occupied : (state.clients slot).id = some id)
    (permits : permitsBlock config slot password exec state transactions = true)
    (alone : repliesAlone config slot password exec state transactions = some replies)
    (fits : (respArray replies).length ≤ maxResponseSize)
    (room : (state.ioThreads (Fin.ofNat threads id)).queue.length < ioQueueSize)
    (never : thread.NeverDue (thread.after ⟨slot, password, .multiple exec transactions⟩)) :
    AnswersExec config thread state slot password exec transactions := by
  rcases executeTransactions_permitted answering alone permits with ⟨final, ran, silent, stays⟩
  have executed := executeTransactionBlock_exec occupied ran
  rw [if_pos (show (blockReply replies).length ≤ maxResponseSize from fits)] at executed
  have quiet : (withReply final slot replies).ioThreads = state.ioThreads :=
    (executeTransactions_keepsReplies ran).ioThreads
  have connected : ((withReply final slot replies).clients slot).id = some id :=
    stays.trans occupied
  have requested := addIoRequest_room exec.origin
    (.write exec.sequence (replyToWrite final slot replies) (blockReply replies))
    connected (by rwa [quiet])
  refine ⟨replies, _, _, alone, executeAutosaving_eq_some.mpr ⟨executed, never⟩, rfl, ?_⟩
  show RequestsOnly state (addIoRequest (withReply final slot replies) slot exec.origin
    (.write exec.sequence (replyToWrite final slot replies) (blockReply replies))) slot exec _
  rw [requested]
  refine ⟨silent, id, replyToWrite final slot replies, occupied, ?_, ?_⟩
  · exact contents_withReply final slot replies
  · unfold State.updateThread
    rw [quiet]
    rfl

/-- EXEC answers its block with the array of what its commands would be answered alone if
and only if the password permits each of them at its turn and none closes the connection,
the array fits into the `write_buf`, the queue of the I/O thread has room, and no command up to the
end of the block is due for a save. -/
theorem answersExec_iff (occupied : (state.clients slot).id = some id)
    (answering : ∀ transaction ∈ transactions, transaction.val.command.AnswersClients) :
    AnswersExec config thread state slot password exec transactions ↔
      permitsBlock config slot password exec state transactions = true ∧
      (∃ replies, repliesAlone config slot password exec state transactions = some replies ∧
        (respArray replies).length ≤ maxResponseSize) ∧
      (state.ioThreads (Fin.ofNat threads id)).queue.length < ioQueueSize ∧
      thread.NeverDue (thread.after ⟨slot, password, .multiple exec transactions⟩) := by
  constructor
  · intro answers
    rcases answers.ran with
      ⟨final, results, replies, found, _, alone, same, fits, here, _, room, never⟩
    obtain rfl : found = id := Option.some.inj (here.symm.trans occupied)
    rw [same] at fits
    exact ⟨answers.permits, ⟨replies, alone, fits⟩, room, never⟩
  · rintro ⟨permits, ⟨replies, alone, fits⟩, room, never⟩
    exact answersExec_of_permits answering occupied permits alone fits room never

end Exec

/-- The automatic save of the default configuration, at the first command. -/
def firstCommands : AutosaveThread where
  conf := ⟨60, 100000⟩
  server := ⟨0, 0⟩
  startedAt := 0
  earlier := []
  currentTime _ := 1
  saved _ := 0
  valid _ := by decide

/-- The server after it accepted its first connection. -/
def firstAccepted (loaded : List (Password Bytes)) : State Unit Unit Bytes 2 :=
  (acceptClient sampleConfig (start sampleConfig () loaded)).getD (start sampleConfig () loaded)

/-- ECHO and AUTH without arguments, queued before the third command. -/
def echoAndAuth : List (QueuedTransaction Unit Unit) :=
  [⟨⟨.data echo, [text "a"], (), ⟨1, 1⟩⟩, rfl⟩, ⟨⟨.auth, [], (), ⟨1, 2⟩⟩, rfl⟩]

theorem echo_answersClients : echo.AnswersClients := by
  rintro ⟨protover, args, database, permissions⟩ databases result connected returned
  cases protover with
  | none => cases connected
  | some protover =>
      dsimp only [echo] at returned
      split at returned
      · contradiction
      · cases returned
        exact createRespString_ne_nil _
      · cases returned
        exact wrongArgumentError_ne_nil _

theorem answersExec_iff_echoAndAuth :
    AnswersExec sampleConfig firstCommands (firstAccepted []) 1 defaultPassword ⟨1, 3⟩ echoAndAuth := by
  have occupied : ((firstAccepted []).clients 1).id = some 1 := by decide
  have answering : ∀ transaction ∈ echoAndAuth, transaction.val.command.AnswersClients := by
    intro transaction member
    rcases List.mem_cons.mp member with rfl | member
    · exact echo_answersClients
    · rw [List.mem_singleton.mp member]
      exact trivial
  apply (answersExec_iff occupied answering).mpr
  have never : firstCommands.NeverDue
      (firstCommands.after ⟨1, defaultPassword, .multiple ⟨1, 3⟩ echoAndAuth⟩) :=
    firstCommands.unreachable_eq_false_iff.mp (by decide)
  refine ⟨by decide +kernel, ?_, by decide +kernel, never⟩
  exact ⟨[createRespString (text "a"), wrongArgumentError "AUTH"], by decide +kernel,
    by decide +kernel⟩

/-- PWD without arguments, for a client that the server with a password did not
authorize: the error is on the socket, and the array is empty. -/
theorem not_answersExec_pwd :
    ¬ AnswersExec sampleConfig firstCommands (firstAccepted [⟨none, Permission.all⟩]) 1
      emptyPassword ⟨1, 2⟩ [⟨⟨.pwd, [], (), ⟨1, 1⟩⟩, rfl⟩] :=
  fun answers => absurd answers.permits (by decide +kernel)

end TellyDB.Server
