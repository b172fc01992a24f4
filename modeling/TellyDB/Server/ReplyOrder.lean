import TellyDB.Server.Grouping
import TellyDB.Server.PasswordEffects

/-!
Owns the order of replies: a reply takes one of four ways to the socket, and as long
as none of them overtakes another, the replies to a connection are put on its socket
in the order in which it sent the commands.
-/

namespace TellyDB.Server

open Resp Lib

variable {σ D K : Type} {threads : Nat}

/-! ## The replies of a connection -/

/-- A reply that was put on the socket of a connection. -/
def Event.write : Event σ D → Option (Nat × Tag)
  | .wrote connection written => some (connection, written.tag)
  | _ => none

/-- The command of the connection an operation replies to. -/
def IoOperation.answers (operation : IoOperation) (connection : Nat) : Option Nat :=
  match operation.type with
  | .write sequence _ _ => if operation.origin = connection then some sequence else none
  | _ => none

def Tag.sequenceOf (tag : Tag) (connection : Nat) : Option Nat :=
  if tag.origin = connection then some tag.sequence else none

namespace State

def writes (state : State σ D K threads) : List (Nat × Tag) :=
  state.trace.filterMap Event.write

/-- The commands whose replies were put on the socket of the connection, in that order. -/
def replied (state : State σ D K threads) (connection : Nat) : List Nat :=
  state.writes.filterMap fun write => if write.1 = connection then some write.2.sequence else none

/-- The write requests of the connection that were not performed. -/
def requested [NeZero threads] (state : State σ D K threads) (connection : Nat) : List Nat :=
  (state.ioThreads (Fin.ofNat threads connection)).operations.filterMap (·.answers connection)

/-- The reply the transaction thread is about to request. -/
def responding (state : State σ D K threads) (connection : Nat) : List Nat :=
  match state.txThread with
  | .responding _ tag _ _ => (tag.sequenceOf connection).toList
  | _ => []

/-- The blocks of the connection that wait to be executed. -/
def blocksOf (state : State σ D K threads) (connection : Nat) : List Nat :=
  state.pending.filterMap fun block => block.tag.sequenceOf connection

/-- The commands of the connection that wait for a reply, in the order of replies. -/
def outstanding [NeZero threads] (state : State σ D K threads) (connection : Nat) : List Nat :=
  state.requested connection ++ (state.responding connection ++ state.blocksOf connection)

end State

/-! ## The condition -/

/-- PWD may change what a password grants. -/
def Command.changesPasswords : Command σ D → Bool
  | .pwd => true
  | _ => false

/-- Some transaction of the block may be refused, and its error written at once. -/
def writesErrors (state : State σ D K threads) (block : TransactionBlock σ D) : Bool :=
  match block.data with
  | .direct transaction => refuses state.passwords block.password transaction.command
  | .multiple _ transactions => transactions.any fun transaction =>
      refuses state.passwords block.password transaction.val.command ||
        transaction.val.command.changesPasswords

/-- The block is an EXEC that will enqueue the block of its client. -/
def commits (config : Config σ D K) (state : State σ D K threads)
    (block : TransactionBlock σ D) : Bool :=
  match block.data with
  | .direct transaction =>
      match transaction.command with
      | .exec => (state.clients block.client).waitingBlock.isSome &&
          decide (state.txQueue.length < config.maxTransactionBlocks)
      | _ => false
  | .multiple _ _ => false

/-- The step answers a command although a command its connection sent before has not
been answered, or lets a block be answered after a later one. -/
def overtakes [NeZero threads] (config : Config σ D K) (state : State σ D K threads) :
    Action σ D threads → Bool
  | .readNext thread input allocated =>
      match (state.ioThreads thread).activity with
      | .reading slot origin =>
          if (state.clients slot).locked then !(state.outstanding origin).isEmpty
          else
            match input, allocated with
            | .unknown _, _ =>
                !(state.responding origin ++ state.blocksOf origin).isEmpty
            | .known _ _, false => !(state.outstanding origin).isEmpty
            | .known _ _, true => false
      | _ => false
  | .readQueued thread =>
      match (state.ioThreads thread).activity with
      | .added slot tag waitingTx =>
          (state.clients slot).waitingBlock.isSome && !waitingTx &&
            (state.outstanding tag.origin).any fun sequence => sequence < tag.sequence
      | _ => false
  | .txExecute =>
      match state.txThread with
      | .popped block =>
          writesErrors state block &&
              (state.requested block.tag.origin).any (fun sequence =>
                sequence < block.tag.sequence) ||
            commits config state block &&
              state.txQueue.any fun other => other.tag.origin == block.tag.origin
      | _ => false
  | _ => false

/-! ## What a block writes at once -/

section Writes

variable {state next after : State σ D K threads} {config : Config σ D K}
  {block : TransactionBlock σ D} {client : Option Nat}

theorem writes_record (state : State σ D K threads) (events : List (Event σ D)) :
    (state.record events).writes = state.writes ++ events.filterMap Event.write :=
  List.filterMap_append

variable [DecidableEq K]

/-- A command that is not PWD leaves the passwords alone. -/
theorem PasswordStep.passwords {entry : Entry D} {command : Command σ D}
    (step : PasswordStep config entry state command next)
    (keeps : command.changesPasswords = false) : next.passwords = state.passwords := by
  cases step with
  | kept _ _ same => exact same.passwords
  | authorized slot index input own found => rfl
  | added => cases keeps
  | edited => cases keeps
  | removed => cases keeps

/-- A command writes nothing to a socket. -/
theorem runOn_writes {command : Command σ D} {entry : Entry D}
    {result : State σ D K threads × Response}
    (returned : command.runOn config state entry = some result) :
    result.1.writes = state.writes := by
  rcases runOn_cases returned with ⟨next, does, replies⟩
  rw [replies.eq]
  show next.writes = state.writes
  rcases does with ⟨_, manages⟩ | ⟨_, ordinary⟩
  · rcases manages.trace with ⟨events, trace, managing⟩
    have none : events.filterMap Event.write = [] := by
      apply List.filterMap_eq_nil_iff.mpr
      intro event member
      cases managing event member <;> rfl
    rw [State.writes, trace, List.filterMap_append, none, List.append_nil, State.writes]
  · rw [State.writes, ordinary.trace, State.writes]

/-- A transaction writes nothing, or the error that refuses it to its client. -/
theorem executeTransaction_writes {password : Nat} {transaction : Transaction σ D}
    {exec : Option Tag} {response : Response}
    (executed : executeTransaction config state client password transaction exec =
      some (after, response)) :
    after.writes = state.writes ∨
      refuses state.passwords password transaction.command = true ∧
      ∃ slot id, client = some slot ∧ (state.clients slot).id = some id ∧
        after.writes = state.writes ++ [(id, exec.getD transaction.tag)] := by
  rcases executeTransaction_cases executed with ⟨slot, own, _, refused, rfl⟩ | ⟨ran, returned, rfl⟩
  · rw [writeMessage, writeToSocket_eq]
    cases occupied : (state.clients slot).id with
    | none =>
        refine .inl ?_
        rw [writes_record, writes_record]
        simp [Event.write]
    | some id =>
        refine .inr ⟨refused, slot, id, own, occupied, ?_⟩
        rw [writes_record, writes_record]
        simp [Event.write]
  · refine .inl ?_
    rw [writes_record]
    exact (List.append_nil _).trans (runOn_writes returned)

/-- A transaction that is not PWD leaves the passwords alone. -/
theorem executeTransaction_passwords {password : Nat} {transaction : Transaction σ D}
    {exec : Option Tag} {response : Response}
    (executed : executeTransaction config state client password transaction exec =
      some (after, response)) (keeps : transaction.command.changesPasswords = false) :
    after.passwords = state.passwords := by
  rcases executeTransaction_cases executed with ⟨slot, own, _, refused, rfl⟩ | ⟨ran, returned, rfl⟩
  · rw [writeMessage, writeToSocket_eq]
    rfl
  · rcases runOn_passwordStep _ returned with ⟨next, step, replies⟩
    have same := congrArg State.passwords replies.eq
    exact same.trans (step.passwords keeps)

/-- A block writes only errors, to its client and as the answer to the block. -/
theorem executeTransactions_writes {password : Nat} {exec : Tag}
    {transactions : List (QueuedTransaction σ D)} {results : List Bytes}
    (executed : executeTransactions config client password exec state transactions =
      some (after, results)) :
    ∃ new, after.writes = state.writes ++ new ∧
      (∀ write ∈ new, write.2 = exec ∧ ∃ slot, client = some slot ∧
        (state.clients slot).id = some write.1) ∧
      (new ≠ [] → transactions.any (fun transaction =>
        refuses state.passwords password transaction.val.command ||
          transaction.val.command.changesPasswords) = true) := by
  induction transactions generalizing state results with
  | nil =>
      cases executed
      exact ⟨[], (List.append_nil _).symm, List.forall_mem_nil _,
        fun absurdity => absurd rfl absurdity⟩
  | cons transaction rest inductionHypothesis =>
      rcases Option.bind_eq_some_iff.mp executed with ⟨⟨middle, response⟩, first, executed⟩
      rcases Option.bind_eq_some_iff.mp executed with ⟨⟨last, others⟩, second, executed⟩
      cases executed
      rcases inductionHypothesis second with ⟨new, writes, answers, refused⟩
      have stays := executeTransaction_undisturbed first
      have answersFirst : ∀ write ∈ new, write.2 = exec ∧ ∃ slot, client = some slot ∧
          (state.clients slot).id = some write.1 := by
        intro write member
        rcases answers write member with ⟨tag, slot, own, occupied⟩
        refine ⟨tag, slot, own, ?_⟩
        rcases stays.id slot with same | ⟨_, gone⟩
        · rw [← same]
          exact occupied
        · rw [occupied] at gone
          cases gone
      have refusedLater : new ≠ [] → (transaction :: rest).any (fun transaction =>
          refuses state.passwords password transaction.val.command ||
            transaction.val.command.changesPasswords) = true := by
        intro some
        rw [List.any_cons, Bool.or_eq_true, Bool.or_eq_true]
        cases changes : transaction.val.command.changesPasswords with
        | true => exact .inl (.inr rfl)
        | false =>
            rw [← executeTransaction_passwords first changes]
            exact .inr (refused some)
      rcases executeTransaction_writes first with
        none | ⟨refusedHere, slot, id, own, occupied, one⟩
      · exact ⟨new, by rw [writes, none], answersFirst, refusedLater⟩
      · refine ⟨(id, exec) :: new, ?_, ?_, ?_⟩
        · rw [writes, one, List.append_assoc]
          rfl
        · intro write member
          rcases List.mem_cons.mp member with rfl | later
          · exact ⟨rfl, slot, own, occupied⟩
          · exact answersFirst write later
        · intro _
          rw [List.any_cons, refusedHere]
          rfl

theorem executeTransactionBlock_writes
    (executed : executeTransactionBlock config state block = some next) :
    ∃ new, next.writes = state.writes ++ new ∧
      (∀ write ∈ new, write.2 = block.tag ∧ (state.clients block.client).id = some write.1) ∧
      (new ≠ [] → writesErrors state block = true) := by
  cases data : block.data with
  | direct transaction =>
      rcases executeTransactionBlock_direct data executed with ⟨after, response, ran, ended⟩
      have same : next.writes = after.writes := by
        rcases ended with rfl | ⟨_, rfl⟩ <;> rfl
      have tag : block.tag = transaction.tag := by rw [TransactionBlock.tag, data]
      rw [same, tag, writesErrors, data]
      rcases executeTransaction_writes ran with none | ⟨refused, slot, id, own, occupied, one⟩
      · exact ⟨[], by rw [none, List.append_nil], List.forall_mem_nil _,
          fun absurdity => absurd rfl absurdity⟩
      · refine ⟨[(id, transaction.tag)], one, ?_, fun _ => refused⟩
        intro write member
        rw [List.mem_singleton.mp member]
        rw [(connectedClient_eq_some own).1] at occupied
        exact ⟨rfl, occupied⟩
  | multiple exec transactions =>
      rcases executeTransactionBlock_multiple data executed with
        ⟨after, results, ran, connected, rfl⟩
      have tag : block.tag = exec := by rw [TransactionBlock.tag, data]
      rcases executeTransactions_writes ran with ⟨new, writes, answers, refused⟩
      refine ⟨new, writes, ?_, ?_⟩
      · intro write member
        rcases answers write member with ⟨is, slot, own, occupied⟩
        rw [(connectedClient_eq_some own).1] at occupied
        exact ⟨is.trans tag.symm, occupied⟩
      · rw [writesErrors, data]
        exact refused

/-- Only an EXEC that commits enqueues a block, which answers the EXEC. -/
theorem executeTransactionBlock_queue
    (executed : executeTransactionBlock config state block = some next) :
    next.txQueue = state.txQueue ∨ commits config state block = true ∧
      ∃ added, next.txQueue = state.txQueue ++ [added] ∧ added.tag = block.tag := by
  cases data : block.data with
  | multiple exec transactions =>
      rcases executeTransactionBlock_multiple data executed with ⟨after, results, ran, _, rfl⟩
      exact .inl (executeTransactions_quiet ran).2.1
  | direct transaction =>
      rcases executeTransactionBlock_direct data executed with ⟨after, response, ran, ended⟩
      have same : next.txQueue = after.txQueue := by
        rcases ended with rfl | ⟨_, rfl⟩ <;> rfl
      have tag : block.tag = transaction.tag := by rw [TransactionBlock.tag, data]
      rw [same, tag, commits, data]
      rcases executeTransaction_turn ran with ⟨turned, writeBufs, reply, turn, rfl⟩
      cases turn with
      | denied slot own =>
          refine .inl ?_
          rw [writeMessage, writeToSocket_eq]
          rfl
      | ordinary _ _ change => exact .inl change.txQueue
      | managed _ _ change =>
          generalize commandIs : transaction.command = command at change
          cases change with
          | refused => exact .inl rfl
          | opened slot own closed => exact .inl rfl
          | discarded slot waiting own held => exact .inl rfl
          | committed slot waiting own held room =>
              obtain rfl := (connectedClient_eq_some own).1
              refine .inr ⟨?_, _, rfl, rfl⟩
              simp only [commandIs, held, Option.isSome_some, Bool.true_and]
              exact decide_eq_true room

end Writes

/-! ## The invariant -/

section Rules

variable [NeZero threads] {state next : State σ D K threads} {connection : Nat}

/-- What was replied to a connection, and what waits to be replied to, in order. -/
def State.line (state : State σ D K threads) (connection : Nat) : List Nat :=
  state.replied connection ++ state.outstanding connection

theorem State.line_eq {replied requested responding blocks : List Nat}
    (replies : next.replied connection = replied) (requests : next.requested connection = requested)
    (responds : next.responding connection = responding)
    (waits : next.blocksOf connection = blocks) :
    next.line connection = replied ++ (requested ++ (responding ++ blocks)) := by
  rw [State.line, State.outstanding, replies, requests, responds, waits]

structure InLine (state : State σ D K threads) (connection : Nat) : Prop where
  sorted : (state.line connection).Pairwise (· ≤ ·)
  sent : ∀ sequence ∈ state.line connection, sequence < state.sent connection

def IoActivity.isAdded : IoActivity → Bool
  | .added _ _ _ => true
  | _ => false

/-- A thread that has just enqueued a command has read none after it. -/
def Newest (state : State σ D K threads) : Prop :=
  ∀ thread slot tag waitingTx,
    (state.ioThreads thread).activity = .added slot tag waitingTx →
    tag.sequence + 1 = state.sent tag.origin

omit [NeZero threads] in
theorem pairwise_of_eq {sequence : Nat} {list : List Nat}
    (all : ∀ other ∈ list, other = sequence) : list.Pairwise (· ≤ ·) := by
  apply List.pairwise_of_forall_mem_list
  intro one here other there
  rw [all one here, all other there]

theorem InLine.shrink (inLine : InLine state connection)
    (fewer : (next.line connection).Sublist (state.line connection))
    (sent : state.sent connection ≤ next.sent connection) : InLine next connection where
  sorted := inLine.sorted.sublist fewer
  sent sequence member :=
    Nat.lt_of_lt_of_le (inLine.sent sequence (fewer.subset member)) sent

/-- Replies to one command come in where they belong. -/
theorem InLine.insert (inLine : InLine state connection) {first middle last : List Nat}
    {sequence : Nat} (fewer : (first ++ last).Sublist (state.line connection))
    (line : next.line connection = first ++ (middle ++ last))
    (all : ∀ other ∈ middle, other = sequence) (low : ∀ other ∈ first, other ≤ sequence)
    (high : ∀ other ∈ last, sequence ≤ other) (new : sequence < next.sent connection)
    (sent : state.sent connection ≤ next.sent connection) : InLine next connection := by
  have sorted := inLine.sorted.sublist fewer
  rw [List.pairwise_append] at sorted
  refine ⟨?_, ?_⟩
  · rw [line, List.pairwise_append, List.pairwise_append]
    refine ⟨sorted.1, ⟨pairwise_of_eq all, sorted.2.1, ?_⟩, ?_⟩
    · intro one here other there
      rw [all one here]
      exact high other there
    · intro one here other there
      rcases List.mem_append.mp there with inside | after
      · rw [all other inside]
        exact low one here
      · exact sorted.2.2 one here other after
  · intro other member
    rw [line] at member
    rcases List.mem_append.mp member with before | rest
    · exact Nat.lt_of_lt_of_le
        (inLine.sent other (fewer.subset (List.mem_append_left _ before))) sent
    · rcases List.mem_append.mp rest with inside | after
      · rw [all other inside]
        exact new
      · exact Nat.lt_of_lt_of_le
          (inLine.sent other (fewer.subset (List.mem_append_right _ after))) sent

omit [NeZero threads] in
theorem replied_append {new : List (Nat × Tag)} (writes : next.writes = state.writes ++ new) :
    next.replied connection = state.replied connection ++ new.filterMap fun write =>
      if write.1 = connection then some write.2.sequence else none := by
  rw [State.replied, writes, List.filterMap_append, State.replied]

theorem requested_of_operations
    (operations : ∀ thread, (next.ioThreads thread).operations =
      (state.ioThreads thread).operations) :
    next.requested connection = state.requested connection := by
  rw [State.requested, operations, State.requested]

/-- A new request comes behind those of its connection, or is lost. -/
theorem requested_addIoRequest (state : State σ D K threads) (connection slot origin : Nat)
    (type : IoOpType) :
    (addIoRequest state slot origin type).requested connection = state.requested connection ∨
      (addIoRequest state slot origin type).requested connection =
        state.requested connection ++
          (IoOperation.answers ⟨slot, origin, type⟩ connection).toList := by
  rcases operations_addIoRequest state slot origin type (Fin.ofNat threads connection) with
    same | ⟨id, _, _, added⟩
  · exact .inl (by rw [State.requested, same, State.requested])
  · refine .inr ?_
    rw [State.requested, added, List.filterMap_append, State.requested, filterMap_cons_append,
      List.filterMap_nil, List.append_nil]

omit [NeZero threads] in
/-- A thread that holds no operation turns to something else. -/
theorem operations_setActivity {thread : Fin threads} {activity : IoActivity}
    (free : (state.ioThreads thread).activity.held = []) (stays : activity.held = [])
    (other : Fin threads) : ((state.setActivity thread activity).ioThreads other).operations =
      (state.ioThreads other).operations := by
  rw [State.setActivity, operations_updateThread]
  split
  · next same =>
      rw [same, IoThread.operations, IoThread.operations, free, stays]
  · rfl

/-- A performed operation is the first of its connection. -/
theorem requested_perform (attached : Attached state) {thread : Fin threads}
    {operation : IoOperation} {activity : IoActivity}
    (held : (state.ioThreads thread).activity = .popped operation) (free : activity.held = []) :
    state.requested connection = (operation.answers connection).toList ++
      (state.setActivity thread activity).requested connection := by
  have origin := (attached.operations thread operation (held_operation held)).2
  have whole : (state.ioThreads thread).operations =
      operation :: (state.ioThreads thread).queue := by
    rw [IoThread.operations, held]
    rfl
  have rest : IoThread.operations { state.ioThreads thread with activity := activity } =
      (state.ioThreads thread).queue := by
    rw [IoThread.operations, free]
    rfl
  rw [State.requested, State.requested, State.setActivity, operations_updateThread]
  by_cases same : Fin.ofNat threads connection = thread
  · rw [if_pos same, same, whole, rest, filterMap_cons_append]
  · rw [if_neg same]
    have none : operation.answers connection = none := by
      unfold IoOperation.answers
      split
      · next sequence toWrite produced _ =>
          apply if_neg
          intro here
          apply same
          rw [origin, here]
      · rfl
    rw [none]
    rfl

/-- A request shows in the queue of an I/O thread only. -/
theorem addIoRequest_rest (state : State σ D K threads) (connection slot origin : Nat)
    (type : IoOpType) :
    (addIoRequest state slot origin type).replied connection = state.replied connection ∧
      (addIoRequest state slot origin type).responding connection = state.responding connection ∧
      (addIoRequest state slot origin type).blocksOf connection = state.blocksOf connection ∧
      (addIoRequest state slot origin type).sent = state.sent := by
  rw [addIoRequest_eq]
  exact ⟨rfl, rfl, rfl, rfl⟩

omit [NeZero threads] in
theorem replied_wrote (state : State σ D K threads) (connection id : Nat) (written : Written) :
    (state.record [.wrote id written]).replied connection =
      state.replied connection ++ if id = connection then [written.tag.sequence] else [] := by
  have new : (state.record [.wrote id written]).writes = state.writes ++ [(id, written.tag)] :=
    writes_record state _
  rw [replied_append new]
  congr 1
  by_cases here : id = connection
  · simp [here]
  · simp [here]

theorem InLine.keep (inLine : InLine state connection)
    (line : next.line connection = state.line connection)
    (sent : state.sent connection ≤ next.sent connection) : InLine next connection := by
  apply inLine.shrink ?_ sent
  rw [line]

/-- Nothing of the line changes. -/
theorem InLine.same (inLine : InLine state connection) (writes : next.writes = state.writes)
    (requested : next.requested connection = state.requested connection)
    (txThread : next.txThread = state.txThread) (txQueue : next.txQueue = state.txQueue)
    (sent : state.sent connection ≤ next.sent connection) : InLine next connection := by
  refine inLine.keep (State.line_eq ?_ requested ?_ ?_) sent
  · rw [State.replied, writes, State.replied]
  · rw [State.responding, txThread, State.responding]
  · rw [State.blocksOf, State.pending, txThread, txQueue, State.blocksOf, State.pending]

/-- A command that waits for its reply behind all others. -/
theorem InLine.last (inLine : InLine state connection) {sequence : Nat}
    (line : next.line connection = state.line connection ++ [sequence])
    (newest : sequence = state.sent connection) (new : sequence < next.sent connection) :
    InLine next connection := by
  have sent : state.sent connection ≤ next.sent connection := newest ▸ Nat.le_of_lt new
  have fewer : (state.line connection ++ []).Sublist (state.line connection) := by
    rw [List.append_nil]
  have line : next.line connection = state.line connection ++ ([sequence] ++ []) := line
  refine inLine.insert fewer line ?_ ?_ ?_ new sent
  · exact fun other member => List.mem_singleton.mp member
  · intro other member
    rw [newest]
    exact Nat.le_of_lt (inLine.sent other member)
  · exact fun _ member => absurd member List.not_mem_nil

end Rules

/-! ## One step -/

section Steps

variable [NeZero threads] {config : Config σ D K} {state next : State σ D K threads}
  {action : Action σ D threads} {connection : Nat}

/-- A reply to the newest command is put on the socket at once. -/
theorem InLine.answer (inLine : InLine state connection) (sequence : Nat)
    (replied : next.replied connection = state.replied connection ++ [sequence])
    (outstanding : next.outstanding connection = state.outstanding connection)
    (newest : ∀ other ∈ state.replied connection, other ≤ sequence)
    (next_ : ∀ other ∈ state.outstanding connection, sequence ≤ other)
    (new : sequence < next.sent connection)
    (sent : state.sent connection ≤ next.sent connection) : InLine next connection := by
  have line : next.line connection =
      state.replied connection ++ ([sequence] ++ state.outstanding connection) := by
    rw [State.line, replied, outstanding, List.append_assoc]
  refine inLine.insert (List.Sublist.refl _) line ?_ newest next_ new sent
  exact fun other member => List.mem_singleton.mp member

/-- A block is executed: its errors come first, then its reply, and an EXEC lets its
block wait again. -/
theorem InLine.execute (inLine : InLine state connection) {sequence : Nat}
    {new responding added rest : List Nat}
    (blocks : state.blocksOf connection = sequence :: rest)
    (idle : state.responding connection = [])
    (replied : next.replied connection = state.replied connection ++ new)
    (requested : next.requested connection = state.requested connection)
    (responds : next.responding connection = responding)
    (blocksNext : next.blocksOf connection = rest ++ added)
    (errors : ∀ other ∈ new, other = sequence)
    (answers : ∀ other ∈ responding, other = sequence)
    (waits : ∀ other ∈ added, other = sequence)
    (unsent : new = [] ∨ ∀ other ∈ state.requested connection, sequence ≤ other)
    (alone : added = [] ∨ rest = [])
    (sent : next.sent connection = state.sent connection) : InLine next connection := by
  have line : state.line connection =
      state.replied connection ++ (state.requested connection ++ (sequence :: rest)) := by
    rw [State.line, State.outstanding, idle, blocks]
    rfl
  have lineNext : next.line connection = state.replied connection ++ new ++
      (state.requested connection ++ (responding ++ (rest ++ added))) := by
    rw [State.line, State.outstanding, replied, requested, responds, blocksNext]
  have sorted := inLine.sorted
  have below := inLine.sent
  have errorsSorted := pairwise_of_eq errors
  have answersSorted := pairwise_of_eq answers
  have waitsSorted := pairwise_of_eq waits
  rw [line] at sorted below
  refine ⟨?_, ?_⟩
  · rw [lineNext]
    simp only [List.pairwise_append, List.pairwise_cons, List.mem_append, List.mem_cons]
      at sorted ⊢
    grind
  · rw [lineNext, sent]
    simp only [List.mem_append, List.mem_cons] at below ⊢
    grind

omit [NeZero threads] in
theorem Newest.keep (newest : Newest state) (sent : next.sent = state.sent)
    (activity : ∀ thread slot tag waitingTx,
      (next.ioThreads thread).activity = .added slot tag waitingTx →
      (state.ioThreads thread).activity = .added slot tag waitingTx) : Newest next := by
  intro thread slot tag waitingTx is
  rw [sent]
  exact newest thread slot tag waitingTx (activity thread slot tag waitingTx is)

omit [NeZero threads] in
theorem added_setActivity {thread other : Fin threads} {activity : IoActivity} {slot : Nat}
    {tag : Tag} {waitingTx : Bool}
    (added : ((state.setActivity thread activity).ioThreads other).activity =
      .added slot tag waitingTx) :
    other = thread ∧ activity = .added slot tag waitingTx ∨
      other ≠ thread ∧ (state.ioThreads other).activity = .added slot tag waitingTx := by
  simp only [State.setActivity, State.updateThread, Function.update_apply] at added
  split at added
  · next same => exact .inl ⟨same, added⟩
  · next different => exact .inr ⟨different, added⟩

omit [NeZero threads] in
/-- A thread turns to something that is no new command. -/
theorem Newest.setActivity (newest : Newest state) {thread : Fin threads} {activity : IoActivity}
    (other : activity.isAdded = false) : Newest (state.setActivity thread activity) := by
  refine newest.keep rfl ?_
  intro third slot tag waitingTx added
  rcases added_setActivity added with ⟨_, is⟩ | ⟨_, before⟩
  · rw [is] at other
    cases other
  · exact before

theorem activity_addIoRequest {slot origin : Nat} {type : IoOpType} (thread : Fin threads) :
    ((addIoRequest state slot origin type).ioThreads thread).activity =
      (state.ioThreads thread).activity := by
  rcases addIoRequest_cases state slot origin type with same | ⟨id, _, added⟩
  · rw [same]
  · rw [added, State.updateThread]
    simp only [Function.update_apply]
    split
    · next here => rw [here]
    · rfl

theorem Newest.addIoRequest (newest : Newest state) {slot origin : Nat} {type : IoOpType} :
    Newest (addIoRequest state slot origin type) := by
  refine newest.keep ?_ ?_
  · rw [addIoRequest_eq]
  · intro thread other tag waitingTx added
    rw [activity_addIoRequest] at added
    exact added

/-- The thread of a connection reads its next command, which may become the newest. -/
theorem Newest.count (newest : Newest state) (attached : Attached state) {thread : Fin threads}
    {slot origin : Nat} (reading : (state.ioThreads thread).activity = .reading slot origin)
    (sent : next.sent = Function.update state.sent origin (state.sent origin + 1))
    (activity : ∀ other slot tag waitingTx,
      (next.ioThreads other).activity = .added slot tag waitingTx →
      other = thread ∧ tag = ⟨origin, state.sent origin⟩ ∨
        (state.ioThreads other).activity = .added slot tag waitingTx) : Newest next := by
  intro other otherSlot tag waitingTx is
  rw [sent]
  rcases activity other otherSlot tag waitingTx is with ⟨_, rfl⟩ | before
  · rw [Function.update_self]
  · have home := (attached.readers thread slot origin (by rw [reading]; rfl)).2
    have homeOther := (attached.readers other otherSlot tag.origin (by rw [before]; rfl)).2
    have elsewhere : tag.origin ≠ origin := by
      intro same
      rw [same, ← home] at homeOther
      rw [homeOther, reading] at before
      cases before
    rw [Function.update_of_ne elsewhere]
    exact newest other otherSlot tag waitingTx before

theorem Newest.step [DecidableEq K] (newest : Newest state) (attached : Attached state)
    (stepped : step config state action = some next) : Newest next := by
  cases step_stepped stepped with
  | rejected => exact newest
  | connected slot admitted available => exact newest.keep rfl fun _ _ _ _ is => is
  | event slot origin closed => exact newest.addIoRequest
  | popped thread operation rest idle queue =>
      refine newest.keep rfl ?_
      intro other slot tag waitingTx is
      simp only [State.updateThread, Function.update_apply] at is
      split at is
      · cases is
      · exact is
  | dropped thread operation held gone => exact newest.setActivity rfl
  | terminated thread operation id found held occupied type same =>
      have removed : Newest { state.updateClient found Client.removed with
          clientCount := state.clientCount - 1 } := newest.keep rfl fun _ _ _ _ is => is
      exact (removed.setActivity rfl).keep rfl fun _ _ _ _ is => is
  | reading thread operation id held occupied type => exact newest.setActivity rfl
  | wrote thread operation id sequence toWrite produced held occupied type =>
      exact (newest.setActivity rfl).keep rfl fun _ _ _ _ is => is
  | locked thread input allocated slot origin id activity occupied =>
      exact newest.count attached activity rfl fun _ _ _ _ is => .inr is
  | unknown thread name allocated slot origin id activity occupied =>
      have counted : Newest (state.countCommand origin) :=
        newest.count attached activity rfl fun _ _ _ _ is => .inr is
      exact counted.addIoRequest
  | limited thread command args slot origin id activity occupied =>
      have counted : Newest (state.countCommand origin) :=
        newest.count attached activity rfl fun _ _ _ _ is => .inr is
      exact (counted.setActivity rfl).keep rfl fun _ _ _ _ is => is
  | queued thread command args slot origin id block activity occupied waiting managesNone =>
      refine newest.count attached activity rfl ?_
      intro other otherSlot tag waitingTx is
      rcases added_setActivity is with ⟨same, added⟩ | ⟨_, before⟩
      · cases added
        exact .inl ⟨same, rfl⟩
      · exact .inr before
  | enqueued thread command args slot origin id activity occupied direct room =>
      refine newest.count attached activity rfl ?_
      intro other otherSlot tag waitingTx is
      rcases added_setActivity is with ⟨same, added⟩ | ⟨_, before⟩
      · cases added
        exact .inl ⟨same, rfl⟩
      · exact .inr before
  | answered thread slot id tag activity occupied waiting =>
      exact (newest.setActivity rfl).keep rfl fun _ _ _ _ is => is
  | unanswered thread slot id tag waitingTx activity occupied => exact newest.setActivity rfl
  | ended thread slot origin activity => exact newest.setActivity rfl
  | streamEnded thread slot origin activity => exact (newest.setActivity rfl).addIoRequest
  | blockPopped block rest idle queue => exact newest.keep rfl fun _ _ _ _ is => is
  | executed block next held ran =>
      rcases executeTransactionBlock_undisturbed ran with ⟨after, writeBufs, stays, ended⟩
      have same : next.sent = after.sent ∧ next.ioThreads = after.ioThreads := by
        rcases ended with rfl | ⟨_, _, _, rfl⟩ <;> exact ⟨rfl, rfl⟩
      refine newest.keep (same.1.trans stays.sent) ?_
      rw [same.2, stays.ioThreads]
      exact fun _ _ _ _ is => is
  | responded slot tag toWrite produced responding =>
      have idle : Newest { state with txThread := .idle } := newest.keep rfl fun _ _ _ _ is => is
      exact idle.addIoRequest

/-- An operation is taken from the requests without a reply. -/
theorem InLine.perform (inLine : InLine state connection) (attached : Attached state)
    {thread : Fin threads} {operation : IoOperation} {activity : IoActivity}
    (held : (state.ioThreads thread).activity = .popped operation) (free : activity.held = []) :
    InLine (state.setActivity thread activity) connection := by
  refine inLine.shrink ?_ (Nat.le_refl _)
  have requested : state.requested connection = (operation.answers connection).toList ++
      (state.setActivity thread activity).requested connection :=
    requested_perform attached held free
  rw [State.line, State.outstanding, State.line, State.outstanding, requested]
  refine List.Sublist.append_left ?_ _
  rw [List.append_assoc]
  exact List.sublist_append_right _ _

/-- A write that is performed takes its reply from the front of the requests. -/
theorem InLine.write (inLine : InLine state connection) (attached : Attached state)
    {thread : Fin threads} {operation : IoOperation} {id sequence : Nat} {toWrite : ToWrite}
    {produced : Bytes} (held : (state.ioThreads thread).activity = .popped operation)
    (occupied : (state.clients operation.client).id = some id)
    (type : operation.type = .write sequence toWrite produced) :
    InLine ((state.setActivity thread .idle).record
      [.wrote id ⟨⟨operation.origin, sequence⟩, produced, state.contents toWrite⟩]) connection := by
  have own := (attached.operations thread operation (held_operation held)).1.occupant occupied
  subst own
  refine inLine.shrink ?_ (Nat.le_refl _)
  have requested : state.requested connection = (operation.answers connection).toList ++
      (state.setActivity thread .idle).requested connection :=
    requested_perform attached held rfl
  rw [State.line, State.outstanding, replied_wrote, State.line, State.outstanding, requested]
  by_cases here : operation.origin = connection
  · have answers : operation.answers connection = some sequence := by
      rw [IoOperation.answers, type]
      exact if_pos here
    rw [if_pos here, answers, List.append_assoc, List.append_assoc]
    exact List.Sublist.refl _
  · have answers : operation.answers connection = none := by
      rw [IoOperation.answers, type]
      exact if_neg here
    rw [if_neg here, answers, List.append_nil]
    exact List.Sublist.refl _

/-- A request that is no reply, or none to this connection. -/
theorem InLine.request (inLine : InLine state connection) {slot origin : Nat}
    {type : IoOpType}
    (none : IoOperation.answers ⟨slot, origin, type⟩ connection = none) :
    InLine (addIoRequest state slot origin type) connection := by
  have requested : (addIoRequest state slot origin type).requested connection =
      state.requested connection := by
    rcases requested_addIoRequest state connection slot origin type with same | added
    · exact same
    · rw [added, none]
      exact List.append_nil _
  refine inLine.same ?_ requested ?_ ?_ ?_
  · rw [addIoRequest_eq]
    rfl
  · rw [addIoRequest_eq]
  · rw [addIoRequest_eq]
  · rw [addIoRequest_eq]

/-- A thread that holds no operation turns to something else, while the trace grows by
no reply. -/
theorem InLine.setActivity (inLine : InLine state connection) {thread : Fin threads}
    {activity : IoActivity} (free : (state.ioThreads thread).activity.held = [])
    (stays : activity.held = []) : InLine (state.setActivity thread activity) connection :=
  inLine.same rfl (requested_of_operations (operations_setActivity free stays)) rfl rfl
    (Nat.le_refl _)

omit [NeZero threads] in
theorem sent_countCommand (origin : Nat) :
    (state.countCommand origin).sent origin = state.sent origin + 1 :=
  Function.update_self _ _ _

theorem InLine.count (inLine : InLine state connection) (origin : Nat) :
    InLine (state.countCommand origin) connection :=
  inLine.same rfl rfl rfl rfl (sent_le_countCommand origin connection)

/-- An error is put on the socket as the answer to the command that is read. -/
theorem InLine.refuse (inLine : InLine state connection) {id : Nat} (message : Bytes)
    (clear : state.outstanding id = []) :
    InLine ((state.countCommand id).record [.wrote id ⟨⟨id, state.sent id⟩, message, message⟩])
      connection := by
  by_cases here : id = connection
  · subst here
    have sent : ((state.countCommand id).record
        [.wrote id ⟨⟨id, state.sent id⟩, message, message⟩]).sent id = state.sent id + 1 :=
      Function.update_self _ _ _
    refine inLine.answer (state.sent id) ?_ rfl ?_ ?_ ?_ ?_
    · rw [replied_wrote, if_pos rfl]
      rfl
    · intro other member
      exact Nat.le_of_lt (inLine.sent other (List.mem_append_left _ member))
    · rw [clear]
      exact fun _ member => absurd member List.not_mem_nil
    · rw [sent]
      exact Nat.lt_succ_self _
    · rw [sent]
      exact Nat.le_succ _
  · refine inLine.shrink ?_ (sent_le_countCommand id connection)
    rw [State.line, replied_wrote, if_neg here, List.append_nil]
    exact List.Sublist.refl _

/-- A command that is read turns its thread to it. -/
theorem InLine.read (inLine : InLine state connection) {thread : Fin threads}
    {slot origin : Nat} {activity : IoActivity}
    (reading : (state.ioThreads thread).activity = .reading slot origin)
    (free : activity.held = [])
    (ioThreads : next.ioThreads = (state.setActivity thread activity).ioThreads)
    (writes : next.writes = state.writes) (txThread : next.txThread = state.txThread)
    (txQueue : next.txQueue = state.txQueue)
    (sent : next.sent = (state.countCommand origin).sent) : InLine next connection := by
  refine inLine.same writes ?_ txThread txQueue ?_
  · apply requested_of_operations
    intro other
    rw [ioThreads]
    exact operations_setActivity (by rw [reading]; rfl) free other
  · rw [sent]
    exact sent_le_countCommand origin connection

/-- The error of an unknown command is requested as the last reply of its connection. -/
theorem InLine.unknown (inLine : InLine state connection) {slot origin : Nat} {reply : Bytes}
    (waits : state.responding origin ++ state.blocksOf origin = []) :
    InLine (addIoRequest (state.countCommand origin) slot origin
      (.write (state.sent origin) (.bytes reply) reply)) connection := by
  have counted := inLine.count origin
  by_cases here : origin = connection
  · subst here
    rcases addIoRequest_rest (state.countCommand origin) origin slot origin
      (.write (state.sent origin) (.bytes reply) reply) with ⟨replied, responding, blocks, sent⟩
    rcases requested_addIoRequest (state.countCommand origin) origin slot origin
      (.write (state.sent origin) (.bytes reply) reply) with lost | added
    · refine counted.keep ?_ (Nat.le_of_eq (by rw [sent]))
      rw [State.line_eq replied lost responding blocks, State.line, State.outstanding]
    · rcases List.append_eq_nil_iff.mp waits with ⟨idle, none⟩
      have answers : IoOperation.answers ⟨slot, origin,
          .write (state.sent origin) (.bytes reply) reply⟩ origin = some (state.sent origin) :=
        if_pos rfl
      rw [answers] at added
      refine inLine.last ?_ rfl ?_
      · rw [State.line_eq replied added (responding.trans idle) (blocks.trans none),
          State.line_eq rfl rfl idle none]
        simp only [Option.toList_some, List.append_nil, List.append_assoc]
        rfl
      · rw [sent]
        exact Nat.lt_of_lt_of_eq (Nat.lt_succ_self _) (sent_countCommand origin).symm
  · exact counted.request (if_neg here)

/-- An enqueued command waits behind all others of its connection. -/
theorem InLine.enqueue (inLine : InLine state connection) {thread : Fin threads}
    {slot origin : Nat} {block : TransactionBlock σ D} {activity : IoActivity}
    (tag : block.tag = ⟨origin, state.sent origin⟩)
    (reading : (state.ioThreads thread).activity = .reading slot origin)
    (free : activity.held = []) (writes : next.writes = state.writes)
    (ioThreads : next.ioThreads = (state.setActivity thread activity).ioThreads)
    (txThread : next.txThread = state.txThread) (txQueue : next.txQueue = state.txQueue ++ [block])
    (sent : next.sent = (state.countCommand origin).sent) : InLine next connection := by
  have replied : next.replied connection = state.replied connection := by
    rw [State.replied, writes, State.replied]
  have requested : next.requested connection = state.requested connection := by
    apply requested_of_operations
    intro other
    rw [ioThreads]
    exact operations_setActivity (by rw [reading]; rfl) free other
  have responding : next.responding connection = state.responding connection := by
    rw [State.responding, txThread, State.responding]
  have blocks : next.blocksOf connection =
      state.blocksOf connection ++ (block.tag.sequenceOf connection).toList := by
    rw [State.blocksOf, State.pending, txThread, txQueue, ← List.append_assoc,
      List.filterMap_append, filterMap_cons_append, List.filterMap_nil, List.append_nil]
    rfl
  by_cases here : origin = connection
  · subst here
    have own : block.tag.sequenceOf origin = some (state.sent origin) := by
      rw [tag]
      exact if_pos rfl
    refine inLine.last ?_ rfl ?_
    · rw [State.line_eq replied requested responding blocks, own, State.line, State.outstanding]
      simp only [Option.toList_some, List.append_assoc]
    · rw [sent]
      exact Nat.lt_of_lt_of_eq (Nat.lt_succ_self _) (sent_countCommand origin).symm
  · have other : block.tag.sequenceOf connection = none := by
      rw [tag]
      exact if_neg here
    refine inLine.keep ?_ (by rw [sent]; exact sent_le_countCommand origin connection)
    rw [State.line_eq replied requested responding blocks, other, State.line, State.outstanding]
    simp only [Option.toList_none, List.append_nil]

/-- QUEUED is the answer to the newest command. -/
theorem InLine.confirm (inLine : InLine state connection) {thread : Fin threads}
    {slot id : Nat} {tag : Tag} {waitingTx : Bool}
    (newest : tag.sequence + 1 = state.sent tag.origin)
    (added : (state.ioThreads thread).activity = .added slot tag waitingTx)
    (own : id = tag.origin) (first : ∀ other ∈ state.outstanding tag.origin, tag.sequence ≤ other) :
    InLine ((state.setActivity thread (.reading slot tag.origin)).record
      [.wrote id ⟨tag, queuedMessage, queuedMessage⟩]) connection := by
  have turned : InLine (state.setActivity thread (.reading slot tag.origin)) connection :=
    inLine.setActivity (by rw [added]; rfl) rfl
  have replied := replied_wrote (state.setActivity thread (.reading slot tag.origin)) connection id
    ⟨tag, queuedMessage, queuedMessage⟩
  by_cases here : id = connection
  · rw [if_pos here] at replied
    rw [own] at here
    subst here
    have requested : (state.setActivity thread (.reading slot tag.origin)).requested tag.origin =
        state.requested tag.origin :=
      requested_of_operations (operations_setActivity (by rw [added]; rfl) rfl)
    refine turned.answer tag.sequence replied rfl ?_ ?_ ?_ (Nat.le_refl _)
    · intro other member
      apply Nat.le_of_lt_succ
      rw [Nat.succ_eq_add_one, newest]
      exact turned.sent other (List.mem_append_left _ member)
    · intro other member
      apply first
      rw [State.outstanding, requested] at member
      exact member
    · exact Nat.lt_of_lt_of_eq (Nat.lt_succ_self _) newest
  · rw [if_neg here, List.append_nil] at replied
    refine turned.keep ?_ (Nat.le_refl _)
    rw [State.line_eq replied rfl rfl rfl, State.line, State.outstanding]
    rfl

/-- A reply is requested behind those of its connection, or lost. -/
theorem InLine.respond (inLine : InLine state connection) {slot : Nat} {tag : Tag}
    {toWrite : ToWrite} {produced : Bytes}
    (responding : state.txThread = .responding slot tag toWrite produced) :
    InLine (addIoRequest { state with txThread := .idle } slot tag.origin
      (.write tag.sequence toWrite produced)) connection := by
  have waits : state.responding connection = (tag.sequenceOf connection).toList := by
    rw [State.responding, responding]
  have blocks : State.blocksOf { state with txThread := .idle } connection =
      state.blocksOf connection := by
    rw [State.blocksOf, State.blocksOf, State.pending, State.pending, responding]
    rfl
  rcases addIoRequest_rest { state with txThread := .idle } connection slot tag.origin
    (.write tag.sequence toWrite produced) with ⟨replied, idle, rest, sent⟩
  refine inLine.shrink ?_ (Nat.le_of_eq (by rw [sent]))
  rcases requested_addIoRequest { state with txThread := .idle } connection slot tag.origin
    (.write tag.sequence toWrite produced) with lost | added
  · rw [State.line_eq replied lost idle (rest.trans blocks), State.line_eq rfl rfl waits rfl]
    refine List.Sublist.append_left (List.Sublist.append_left ?_ _) _
    exact List.sublist_append_right _ _
  · have answers : IoOperation.answers ⟨slot, tag.origin,
        .write tag.sequence toWrite produced⟩ connection = tag.sequenceOf connection := rfl
    rw [answers] at added
    rw [State.line_eq replied added idle (rest.trans blocks), State.line_eq rfl rfl waits rfl,
      List.append_assoc]
    exact List.Sublist.refl _

omit [NeZero threads] in
/-- The popped block is the next one of its connection. -/
theorem blocksOf_popped {block : TransactionBlock σ D} (held : state.txThread = .popped block) :
    state.blocksOf connection = (block.tag.sequenceOf connection).toList ++
      state.txQueue.filterMap fun other => other.tag.sequenceOf connection := by
  rw [State.blocksOf, pending_popped held, filterMap_cons_append]

theorem InLine.executeBlock [DecidableEq K] {block : TransactionBlock σ D}
    (inLine : InLine state connection) (attached : Attached state)
    (safe : overtakes config state .txExecute = false) (held : state.txThread = .popped block)
    (ran : executeTransactionBlock config state block = some next) : InLine next connection := by
  rcases executeTransactionBlock_undisturbed ran with ⟨after, writeBufs, stays, ended⟩
  have ioThreads : next.ioThreads = state.ioThreads := by
    rw [← stays.ioThreads]
    rcases ended with rfl | ⟨_, _, _, rfl⟩ <;> rfl
  have sent : next.sent = state.sent := by
    rw [← stays.sent]
    rcases ended with rfl | ⟨_, _, _, rfl⟩ <;> rfl
  have requested : next.requested connection = state.requested connection := by
    rw [State.requested, ioThreads, State.requested]
  have idle : state.responding connection = [] := by
    rw [State.responding, held]
  have responds : ∀ other ∈ next.responding connection,
      block.tag.sequenceOf connection = some other := by
    intro other member
    rcases ended with rfl | ⟨_, _, _, rfl⟩
    · cases member
    · exact Option.mem_toList.mp member
  have waits : state.blocksOf connection = _ := blocksOf_popped held
  rcases executeTransactionBlock_writes ran with ⟨new, writes, answers, refused⟩
  have replied : next.replied connection = state.replied connection ++ _ := replied_append writes
  have blocks : ∃ added, next.blocksOf connection =
      (state.txQueue.filterMap fun other => other.tag.sequenceOf connection) ++ added ∧
      (added = [] ∨ commits config state block = true) ∧
      ∀ other ∈ added, block.tag.sequenceOf connection = some other := by
    have pending : next.pending = next.txQueue := by
      rcases ended with rfl | ⟨_, _, _, rfl⟩ <;> rfl
    rw [State.blocksOf, pending]
    rcases executeTransactionBlock_queue ran with same | ⟨exec, added, grows, tag⟩
    · exact ⟨[], by rw [same, List.append_nil], .inl rfl, List.forall_mem_nil _⟩
    · refine ⟨(block.tag.sequenceOf connection).toList, ?_, .inr exec, ?_⟩
      · rw [grows, List.filterMap_append, filterMap_cons_append, tag, List.filterMap_nil,
          List.append_nil]
      · exact fun other member => Option.mem_toList.mp member
  rcases blocks with ⟨added, blocks, alone, again⟩
  by_cases here : block.tag.origin = connection
  · have own : block.tag.sequenceOf connection = some block.tag.sequence := if_pos here
    rw [own] at responds again waits
    have errors : ∀ other ∈ new.filterMap (fun write =>
        if write.1 = connection then some write.2.sequence else none),
        other = block.tag.sequence := by
      intro other member
      rcases List.mem_filterMap.mp member with ⟨write, before, found⟩
      rw [(answers write before).1] at found
      split at found
      · exact (Option.some.inj found).symm
      · cases found
    simp only [overtakes, held, Bool.or_eq_false_iff, Bool.and_eq_false_iff] at safe
    refine inLine.execute waits idle replied requested rfl blocks errors
      (fun other member => (Option.some.inj (responds other member)).symm)
      (fun other member => (Option.some.inj (again other member)).symm) ?_ ?_ (by rw [sent])
    · rw [here] at safe
      rcases safe.1 with clean | first
      · refine .inl ?_
        have none : new = [] := by
          by_contra some
          rw [refused some] at clean
          cases clean
        rw [none]
        rfl
      · refine .inr ?_
        intro other member
        have low := List.any_eq_false.mp first other member
        exact Nat.le_of_not_lt fun less => low (decide_eq_true less)
    · rcases alone with none | exec
      · exact .inl none
      · refine .inr (List.filterMap_eq_nil_iff.mpr ?_)
        rcases safe.2 with kept | only
        · rw [exec] at kept
          cases kept
        · intro other member
          have elsewhere := List.any_eq_false.mp only other member
          rw [here, beq_iff_eq] at elsewhere
          exact if_neg elsewhere
  · have other : block.tag.sequenceOf connection = none := if_neg here
    rw [other] at responds again waits
    have silent : new.filterMap (fun write =>
        if write.1 = connection then some write.2.sequence else none) = [] := by
      apply List.filterMap_eq_nil_iff.mpr
      intro write member
      apply if_neg
      have home := (attached.blocks block (held_block held)).1.occupant (answers write member).2
      rw [home]
      exact here
    have free : next.responding connection = [] :=
      List.eq_nil_iff_forall_not_mem.mpr fun other member => by cases responds other member
    have nothing : added = [] :=
      List.eq_nil_iff_forall_not_mem.mpr fun other member => by cases again other member
    refine inLine.keep ?_ (by rw [sent])
    rw [State.line_eq replied requested free blocks, State.line_eq rfl rfl idle waits, silent,
      nothing]
    simp only [Option.toList_none, List.nil_append, List.append_nil]

theorem InLine.step [DecidableEq K] (inLine : InLine state connection) (attached : Attached state)
    (newest : Newest state) (safe : overtakes config state action = false)
    (stepped : step config state action = some next) : InLine next connection := by
  cases step_stepped stepped with
  | rejected => exact inLine
  | connected slot admitted available => exact inLine.same rfl rfl rfl rfl (Nat.le_refl _)
  | event slot origin closed =>
      apply inLine.request
      cases closed <;> rfl
  | popped thread operation rest idle queue =>
      refine inLine.same rfl (requested_of_operations ?_) rfl rfl (Nat.le_refl _)
      intro other
      rw [operations_updateThread]
      split
      · next same =>
          rw [same, IoThread.operations, IoThread.operations, idle, queue]
          rfl
      · rfl
  | dropped thread operation held gone => exact inLine.perform attached held rfl
  | terminated thread operation id found held occupied type same =>
      have idle : InLine (state.setActivity thread .idle) connection :=
        inLine.perform attached held rfl
      refine idle.same ?_ rfl rfl rfl (Nat.le_refl _)
      exact (writes_record _ _).trans (List.append_nil _)
  | reading thread operation id held occupied type => exact inLine.perform attached held rfl
  | wrote thread operation id sequence toWrite produced held occupied type =>
      exact inLine.write attached held occupied type
  | locked thread input allocated slot origin id activity occupied isLocked =>
      have own := (attached.readers thread slot origin (by rw [activity]; rfl)).1.occupant occupied
      subst own
      apply inLine.refuse
      simpa [overtakes, activity, isLocked] using safe
  | unknown thread name allocated slot origin id activity occupied unlocked =>
      have waits : state.responding origin ++ state.blocksOf origin = [] := by
        simpa [overtakes, activity, unlocked] using safe
      exact inLine.unknown waits
  | limited thread command args slot origin id activity occupied unlocked =>
      have own := (attached.readers thread slot origin (by rw [activity]; rfl)).1.occupant occupied
      subst own
      have clear : state.outstanding id = [] := by
        simpa [overtakes, activity, unlocked] using safe
      refine (inLine.refuse limitMessage clear).same rfl ?_ rfl rfl (Nat.le_refl _)
      have reading : ((state.countCommand id).ioThreads thread).activity = .reading slot id :=
        activity
      apply requested_of_operations
      exact fun other => operations_setActivity (by rw [reading]; rfl) rfl other
  | queued thread command args slot origin id block activity occupied waiting managesNone =>
      refine inLine.read activity rfl rfl ?_ rfl rfl rfl
      exact (writes_record _ _).trans (List.append_nil _)
  | enqueued thread command args slot origin id activity occupied direct room =>
      have writes := writes_record { state.countCommand origin with
        txQueue := state.txQueue ++ [⟨slot, (state.clients slot).password,
          .direct (prepareTransaction (state.clients slot) command args
            ⟨origin, state.sent origin⟩)⟩] }
        [.accepted (prepareTransaction (state.clients slot) command args
          ⟨origin, state.sent origin⟩)]
      exact inLine.enqueue rfl activity rfl (writes.trans (List.append_nil _)) rfl rfl rfl rfl
  | answered thread slot id tag activity occupied waiting =>
      have reads := attached.readers thread slot tag.origin (by rw [activity]; rfl)
      have own := reads.1.occupant occupied
      have first : ∀ other ∈ state.outstanding tag.origin, tag.sequence ≤ other := by
        simpa [overtakes, activity, waiting] using safe
      exact inLine.confirm (newest thread slot tag false activity) activity own first
  | unanswered thread slot id tag waitingTx activity occupied =>
      exact inLine.setActivity (by rw [activity]; rfl) rfl
  | ended thread slot origin activity => exact inLine.setActivity (by rw [activity]; rfl) rfl
  | streamEnded thread slot origin activity =>
      exact (inLine.setActivity (by rw [activity]; rfl) rfl).request rfl
  | blockPopped block rest idle queue =>
      refine inLine.keep ?_ (Nat.le_refl _)
      have pending : State.pending { state with txQueue := rest, txThread := .popped block } =
          state.pending := by
        rw [State.pending, State.pending, idle, queue]
        rfl
      rw [State.line, State.outstanding, State.blocksOf, pending, State.line, State.outstanding,
        State.responding, State.responding, idle, State.blocksOf]
      rfl
  | executed block next held ran => exact inLine.executeBlock attached safe held ran
  | responded slot tag toWrite produced responding =>
      exact inLine.respond responding

end Steps

/-! ## Whole runs -/

section Runs

variable [NeZero threads]

/-- The replies on the socket of every connection stand in the order in which it sent
the commands they answer. -/
def RepliedInOrder (state : State σ D K threads) : Prop :=
  ∀ connection, (state.replied connection).Pairwise (· ≤ ·)

/-- What a run keeps. -/
structure Ordering (state : State σ D K threads) : Prop where
  attached : Attached state
  newest : Newest state
  inLine : ∀ connection, InLine state connection

theorem Ordering.step [DecidableEq K] {config : Config σ D K} {state next : State σ D K threads}
    {action : Action σ D threads} (ordering : Ordering state)
    (safe : reusesSlot config state action = false ∧ overtakes config state action = false)
    (stepped : step config state action = some next) : Ordering next where
  attached := ordering.attached.step safe.1 stepped
  newest := ordering.newest.step ordering.attached stepped
  inLine connection :=
    (ordering.inLine connection).step ordering.attached ordering.newest safe.2 stepped

theorem ordering_start (config : Config σ D K) (databases : σ) (loaded : List (Password K)) :
    Ordering (start config databases loaded : State σ D K threads) where
  attached := attached_start config databases loaded
  newest := nofun
  inLine _ := ⟨List.Pairwise.nil, nofun⟩

/-- In a run that recycles no slot too early and in which no reply takes a shorter way
than one of an earlier command that is still to come, replies are in order. -/
theorem replies_in_order [DecidableEq K] (config : Config σ D K) (databases : σ)
    (loaded : List (Password K)) (actions : List (Action σ D threads))
    (final : State σ D K threads)
    (safe : Transition.Guarded (step config)
      (fun state action => reusesSlot config state action = false ∧
        overtakes config state action = false)
      (start config databases loaded) actions)
    (ran : Transition.run (step config) (start config databases loaded) actions = some final) :
    RepliedInOrder final := by
  have ordering := Transition.guarded_run_invariant
    (fun _ _ _ (ordering : Ordering _) safe stepped => ordering.step safe stepped)
    (ordering_start config databases loaded) safe ran
  intro connection
  exact (ordering.inLine connection).sorted.sublist (List.sublist_append_left _ _)

/-- A command, an unknown one, MULTI, a command that is queued and a second EXEC, each
sent after the reply to the one before. -/
def patientReplies : List (Action Unit Unit 2) :=
  [.accept] ++ exchanged 1 1 (.data echo) [text "a"] ++
    [.event 1 1 false, .ioPop (threadOf 1), .ioPerform (threadOf 1),
      .readNext (threadOf 1) (.unknown (text "b")) true, .readEnd (threadOf 1) false,
      .ioPop (threadOf 1), .ioPerform (threadOf 1)] ++
    exchanged 1 1 .multi [] ++
    received 1 1 (.data echo) [text "c"] ++ [.readEnd (threadOf 1) false] ++
    executed 1 1 .exec [] ++ [.txPop, .txExecute] ++ replied 1 ++ exchanged 1 1 .exec []

theorem replies_in_order_patient :
    ∃ final, Transition.run (step sampleConfig) (start sampleConfig () []) patientReplies =
        some final ∧ RepliedInOrder final := by
  have finished : (Transition.run (step sampleConfig) (start sampleConfig () [])
    patientReplies).isSome = true := by decide +kernel
  rcases Option.isSome_iff_exists.mp finished with ⟨final, ran⟩
  exact ⟨final, ran,
    replies_in_order sampleConfig () [] patientReplies final (by decide +kernel) ran⟩

/-- A command and an unknown one in one segment; the error is on the socket before the
first command is executed. -/
def pipelinedUnknown : List (Action Unit Unit 2) :=
  [.accept] ++ received 1 1 (.data echo) [text "a"] ++
    [.readNext (threadOf 1) (.unknown (text "b")) true, .readEnd (threadOf 1) false,
      .ioPop (threadOf 1), .ioPerform (threadOf 1), .txPop, .txExecute] ++ replied 1

/-- An echo and a PWD without permission in one segment, all executed before the
first reply is written. -/
def pipelinedDenied : List (Action Unit Unit 2) :=
  [.accept] ++ received 1 1 (.data echo) [text "a"] ++
    [.readNext (threadOf 1) (.known .pwd [text "GENERATE"]) true, .readQueued (threadOf 1),
      .readEnd (threadOf 1) false, .txPop, .txExecute, .txRespond, .txPop, .txExecute,
      .ioPop (threadOf 1), .ioPerform (threadOf 1)]

/-- The password of a file, with which a client that has not authenticated may do nothing. -/
def loadedPassword : Password Bytes := ⟨some (text "p"), Permission.all⟩

/-- The second reply overtakes the first: an error of the I/O thread, and one of the
transaction thread. -/
theorem replies_in_order_fails_when_pipelined :
    (∃ final : State Unit Unit Bytes 2,
      Transition.run (step sampleConfig) (start sampleConfig () []) pipelinedUnknown =
        some final ∧ ¬RepliedInOrder final) ∧
    ∃ final : State Unit Unit Bytes 2,
      Transition.run (step sampleConfig) (start sampleConfig () [loadedPassword])
        pipelinedDenied = some final ∧ ¬RepliedInOrder final := by
  have crossed : (Transition.run (step sampleConfig) (start sampleConfig () [])
      pipelinedUnknown).any (fun final => decide (final.replied 1 = [1, 0])) = true := by
    decide +kernel
  have denied : (Transition.run (step sampleConfig) (start sampleConfig () [loadedPassword])
      pipelinedDenied).any (fun final => decide (final.replied 1 = [1, 0])) = true := by
    decide +kernel
  rcases (Option.any_eq_true _ _).mp crossed with ⟨first, ranFirst, replies⟩
  rcases (Option.any_eq_true _ _).mp denied with ⟨second, ranSecond, repliesSecond⟩
  refine ⟨⟨first, ranFirst, ?_⟩, ⟨second, ranSecond, ?_⟩⟩
  · intro inOrder
    have sorted := inOrder 1
    rw [of_decide_eq_true replies] at sorted
    exact absurd sorted (by decide)
  · intro inOrder
    have sorted := inOrder 1
    rw [of_decide_eq_true repliesSecond] at sorted
    exact absurd sorted (by decide)

end Runs

end TellyDB.Server
