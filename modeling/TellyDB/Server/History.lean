import TellyDB.Server.Attachment

/-!
Owns the history a trace records: the commands that were enqueued, the ones that
were executed, and what MULTI, EXEC and DISCARD did to blocks. A step that touches
no block of a client and no transaction leaves all of it alone.
-/

namespace TellyDB.Server

open Resp Lib

variable {σ D K : Type} {threads : Nat}

/-! ## The parts of a history -/

/-- What MULTI, EXEC or DISCARD did to a block. -/
inductive Boundary where
  | opened
  | committed
  | discarded
deriving DecidableEq

namespace Event

/-- The transaction `add_transaction` returned true for. -/
def acceptance : Event σ D → Option (Transaction σ D)
  | .accepted transaction => some transaction
  | _ => none

def execution : Event σ D → Option (Execution σ D)
  | .executed execution => some execution
  | _ => none

def boundary : Event σ D → Option (Boundary × Tag)
  | .opened tag => some (.opened, tag)
  | .committed tag => some (.committed, tag)
  | .discarded tag => some (.discarded, tag)
  | _ => none

end Event

namespace TransactionBlock

/-- The transaction of a `TX_DIRECT` block. -/
def direct (block : TransactionBlock σ D) : Option (Transaction σ D) :=
  match block.data with
  | .direct transaction => some transaction
  | .multiple _ _ => none

/-- The EXEC and the transactions of a `TX_MULTIPLE` block. -/
def multiple (block : TransactionBlock σ D) : Option (Tag × List (QueuedTransaction σ D)) :=
  match block.data with
  | .direct _ => none
  | .multiple exec transactions => some (exec, transactions)

end TransactionBlock

namespace State

def acceptances (state : State σ D K threads) : List (Transaction σ D) :=
  state.trace.filterMap Event.acceptance

def executions (state : State σ D K threads) : List (Execution σ D) :=
  state.trace.filterMap Event.execution

def boundaries (state : State σ D K threads) : List (Boundary × Tag) :=
  state.trace.filterMap Event.boundary

def directs (state : State σ D K threads) : List (Transaction σ D) :=
  state.pending.filterMap TransactionBlock.direct

def multiples (state : State σ D K threads) : List (Tag × List (QueuedTransaction σ D)) :=
  state.pending.filterMap TransactionBlock.multiple

end State

theorem filterMap_cons_append {α β : Type} (project : α → Option β) (head : α) (rest : List α) :
    (head :: rest).filterMap project = (project head).toList ++ rest.filterMap project := by
  cases found : project head with
  | none => rw [List.filterMap_cons_none found]; rfl
  | some value => rw [List.filterMap_cons_some found]; rfl

/-- The connection is closed, and its id will not come back. -/
def Departed (state : State σ D K threads) (origin : Nat) : Prop :=
  origin < state.lastConnectionClientId ∧ ∀ slot, (state.clients slot).id ≠ some origin

/-! ## What leaves a history alone -/

section Rules

variable {state middle next : State σ D K threads}

theorem acceptances_record (state : State σ D K threads) (events : List (Event σ D)) :
    (state.record events).acceptances = state.acceptances ++ events.filterMap Event.acceptance :=
  List.filterMap_append

theorem executions_record (state : State σ D K threads) (events : List (Event σ D)) :
    (state.record events).executions = state.executions ++ events.filterMap Event.execution :=
  List.filterMap_append

theorem boundaries_record (state : State σ D K threads) (events : List (Event σ D)) :
    (state.record events).boundaries = state.boundaries ++ events.filterMap Event.boundary :=
  List.filterMap_append

/-- Clients may go; the blocks of those that stay, the numbers of commands, what
was enqueued and what became of blocks are the same. -/
structure Quiet (state next : State σ D K threads) : Prop where
  lastConnectionClientId : next.lastConnectionClientId = state.lastConnectionClientId
  sent : ∀ origin, state.sent origin ≤ next.sent origin
  id : ∀ slot, (next.clients slot).id = (state.clients slot).id ∨ (next.clients slot).id = none
  waitingBlock : ∀ slot, (next.clients slot).waitingBlock = (state.clients slot).waitingBlock ∨
    (next.clients slot).id = none
  acceptances : next.acceptances = state.acceptances
  boundaries : next.boundaries = state.boundaries

theorem Quiet.refl : Quiet state state :=
  ⟨rfl, fun _ => Nat.le_refl _, fun _ => .inl rfl, fun _ => .inl rfl, rfl, rfl⟩

theorem Quiet.stays (quiet : Quiet state next) {slot origin : Nat}
    (occupied : (next.clients slot).id = some origin) :
    (state.clients slot).id = some origin ∧
      (next.clients slot).waitingBlock = (state.clients slot).waitingBlock := by
  rcases quiet.id slot with same | gone
  · rcases quiet.waitingBlock slot with kept | gone
    · exact ⟨same ▸ occupied, kept⟩
    · rw [occupied] at gone
      cases gone
  · rw [occupied] at gone
    cases gone

theorem Quiet.departed (quiet : Quiet state next) {origin : Nat}
    (departed : Departed state origin) : Departed next origin := by
  refine ⟨by rw [quiet.lastConnectionClientId]; exact departed.1, ?_⟩
  intro slot occupied
  exact departed.2 slot (quiet.stays occupied).1

theorem Quiet.trans (first : Quiet state middle) (second : Quiet middle next) :
    Quiet state next where
  lastConnectionClientId := second.lastConnectionClientId.trans first.lastConnectionClientId
  sent origin := (first.sent origin).trans (second.sent origin)
  id slot := by
    rcases second.id slot with same | gone
    · rw [same]
      exact first.id slot
    · exact .inr gone
  waitingBlock slot := by
    rcases second.id slot with same | gone
    · rcases second.waitingBlock slot with kept | gone
      · rw [kept, same]
        exact first.waitingBlock slot
      · exact .inr gone
    · exact .inr gone
  acceptances := second.acceptances.trans first.acceptances
  boundaries := second.boundaries.trans first.boundaries

/-- New events of another kind leave a history alone. -/
theorem Quiet.record {events : List (Event σ D)} (quiet : Quiet state next)
    (accepts : events.filterMap Event.acceptance = [])
    (bounds : events.filterMap Event.boundary = []) : Quiet state (next.record events) where
  lastConnectionClientId := quiet.lastConnectionClientId
  sent := quiet.sent
  id := quiet.id
  waitingBlock := quiet.waitingBlock
  acceptances := by
    rw [acceptances_record, accepts, List.append_nil]
    exact quiet.acceptances
  boundaries := by
    rw [boundaries_record, bounds, List.append_nil]
    exact quiet.boundaries

theorem Ordinary.quiet {resets kills : Prop} {client : Option Nat}
    (change : Ordinary resets kills client state next) : Quiet state next where
  lastConnectionClientId := change.lastConnectionClientId
  sent origin := by rw [change.sent]
  id slot := (change.id slot).imp_right And.right
  waitingBlock := change.waiting
  acceptances := by rw [State.acceptances, change.trace, State.acceptances]
  boundaries := by rw [State.boundaries, change.trace, State.boundaries]

end Rules

/-! ## Transactions -/

section Transactions

variable [DecidableEq K] {config : Config σ D K} {state next after : State σ D K threads}
  {client : Option Nat} {password : Nat} {transaction : Transaction σ D} {block : Option Tag}

omit [DecidableEq K] in
theorem writeMessage_quiet (slot : Nat) (tag : Tag) (message : Bytes) :
    Quiet state (writeMessage state slot tag message) ∧
      (writeMessage state slot tag message).executions = state.executions := by
  rw [writeMessage, writeToSocket_eq]
  cases (state.clients slot).id with
  | none => exact ⟨Quiet.refl.record rfl rfl, (executions_record state _).trans (List.append_nil _)⟩
  | some connection =>
      exact ⟨Quiet.refl.record rfl rfl, (executions_record state _).trans (List.append_nil _)⟩

omit [DecidableEq K] in
/-- A transaction whose command manages no block changes no history but executions. -/
theorem Turn.quiet (turn : Turn config client password transaction block state next)
    (managesNone : transaction.command.waitingTx = false) :
    Quiet state next ∧ next.txQueue = state.txQueue ∧ next.executions = state.executions := by
  cases turn with
  | denied slot own =>
      rcases writeMessage_quiet slot (block.getD transaction.tag) noPermissions with
        ⟨quiet, executions⟩
      refine ⟨quiet, ?_, executions⟩
      rw [writeMessage, writeToSocket_eq]
      rfl
  | ordinary next _ change =>
      refine ⟨change.quiet, change.txQueue, ?_⟩
      rw [State.executions, change.trace, State.executions]
  | managed next managesOne change =>
      rw [managesNone] at managesOne
      cases managesOne

/-- The execution of such a transaction. -/
theorem executeTransaction_quiet {response : Response}
    (managesNone : transaction.command.waitingTx = false)
    (executed : executeTransaction config state client password transaction block =
      some (after, response)) :
    Quiet state after ∧ after.txQueue = state.txQueue ∧ ∃ reply, after.executions =
      state.executions ++ [⟨transaction, password, client.isSome, block, reply⟩] := by
  rcases executeTransaction_turn executed with ⟨next, writeBufs, reply, turn, rfl⟩
  rcases turn.quiet managesNone with ⟨quiet, queue, executions⟩
  have stored : Quiet state { next with writeBufs := writeBufs } := { quiet with }
  refine ⟨stored.record rfl rfl, queue, reply, ?_⟩
  rw [← executions]
  exact executions_record { next with writeBufs := writeBufs } _

/-- A block is executed in its order, all of it under its EXEC. -/
theorem executeTransactions_quiet {exec : Tag} {transactions : List (QueuedTransaction σ D)}
    {results : List Bytes}
    (executed : executeTransactions config client password exec state transactions =
      some (after, results)) :
    Quiet state after ∧ after.txQueue = state.txQueue ∧ ∃ new,
      after.executions = state.executions ++ new ∧
      new.map Execution.transaction = transactions.map Subtype.val ∧
      ∀ execution ∈ new, execution.block = some exec := by
  induction transactions generalizing state results with
  | nil =>
      cases executed
      exact ⟨Quiet.refl, rfl, [], (List.append_nil _).symm, rfl, nofun⟩
  | cons transaction rest inductionHypothesis =>
      rcases Option.bind_eq_some_iff.mp executed with ⟨⟨middle, response⟩, first, executed⟩
      rcases Option.bind_eq_some_iff.mp executed with ⟨⟨last, others⟩, second, executed⟩
      cases executed
      rcases executeTransaction_quiet transaction.property first with
        ⟨quietHere, queueHere, reply, here⟩
      rcases inductionHypothesis second with ⟨quietRest, queueRest, new, there, same, under⟩
      refine ⟨quietHere.trans quietRest, queueRest.trans queueHere,
        ⟨transaction.val, password, client.isSome, some exec, reply⟩ :: new, ?_, ?_, ?_⟩
      · rw [there, here, List.append_assoc]
        rfl
      · rw [List.map_cons, List.map_cons, same]
      · intro execution member
        rcases List.mem_cons.mp member with rfl | later
        · rfl
        · exact under execution later

end Transactions

/-! ## Blocks -/

/-- What a command that manages a block makes of the waiting block of its client,
and the blocks it enqueues. -/
inductive Moves (tag : Tag) (slot password : Nat) : Command σ D → Boundary →
    Option (WaitingBlock σ D) → Option (WaitingBlock σ D) → List (TransactionBlock σ D) → Prop
  | opened : Moves tag slot password .multi .opened none (some ⟨password, []⟩) []
  | committed (block : WaitingBlock σ D) :
      Moves tag slot password .exec .committed (some block) none
        [⟨slot, block.password, .multiple tag block.transactions⟩]
  | discarded (block : WaitingBlock σ D) :
      Moves tag slot password .discard .discarded (some block) none []

/-- The only block it enqueues is one that answers the command. -/
theorem Moves.new {tag : Tag} {slot password : Nat} {command : Command σ D}
    {boundary : Boundary} {before after : Option (WaitingBlock σ D)}
    {new : List (TransactionBlock σ D)}
    (moves : Moves tag slot password command boundary before after new) :
    ∀ block ∈ new, block.direct = none ∧ block.tag = tag ∧ block.client = slot := by
  intro block member
  cases moves with
  | opened => cases member
  | committed waiting =>
      rw [List.mem_singleton.mp member]
      exact ⟨rfl, rfl, rfl⟩
  | discarded waiting => cases member

/-- What the execution of a block does to the history. -/
inductive BlockRun (block : TransactionBlock σ D) (state next : State σ D K threads) : Prop
  | direct (transaction : Transaction σ D) (reply : Bytes)
      (data : block.data = .direct transaction) (quiet : Quiet state next)
      (pending : next.pending = state.txQueue)
      (executions : next.executions = state.executions ++
        [⟨transaction, block.password, (connectedClient state block.client).isSome, none, reply⟩])
  | managed (transaction : Transaction σ D) (reply : Bytes) (boundary : Boundary)
      (before after : Option (WaitingBlock σ D)) (new : List (TransactionBlock σ D))
      (data : block.data = .direct transaction)
      (connected : connectedClient state block.client = some block.client)
      (moves : Moves transaction.tag block.client block.password transaction.command boundary
        before after new)
      (waiting : (state.clients block.client).waitingBlock = before)
      (clients : next.clients = (state.setWaitingBlock block.client after).clients)
      (lastConnectionClientId : next.lastConnectionClientId = state.lastConnectionClientId)
      (sent : next.sent = state.sent)
      (pending : next.pending = state.txQueue ++ new)
      (acceptances : next.acceptances = state.acceptances)
      (boundaries : next.boundaries = state.boundaries ++ [(boundary, transaction.tag)])
      (executions : next.executions = state.executions ++
        [⟨transaction, block.password, (connectedClient state block.client).isSome, none, reply⟩])
  | multiple (exec : Tag) (transactions : List (QueuedTransaction σ D))
      (new : List (Execution σ D))
      (data : block.data = .multiple exec transactions) (quiet : Quiet state next)
      (pending : next.pending = state.txQueue)
      (executions : next.executions = state.executions ++ new)
      (same : new.map Execution.transaction = transactions.map Subtype.val)
      (under : ∀ execution ∈ new, execution.block = some exec)

section Blocks

variable [DecidableEq K] {config : Config σ D K} {state next after : State σ D K threads}
  {block : TransactionBlock σ D}

omit [DecidableEq K] in
/-- The end of a block shows neither in the history nor among the pending blocks. -/
theorem Quiet.ended (quiet : Quiet state after) {writeBufs : Nat → Bytes}
    {activity : TxActivity σ D} :
    Quiet state { after with writeBufs := writeBufs, txThread := activity } :=
  { quiet with }

omit [DecidableEq K] in
/-- A boundary and the execution of its command are all that is new. -/
theorem history_moved {event : Event σ D} {moved : Boundary × Tag} {execution : Execution σ D}
    (trace : next.trace = state.trace ++ [event] ++ [.executed execution])
    (isBoundary : event.boundary = some moved) :
    next.acceptances = state.acceptances ∧ next.boundaries = state.boundaries ++ [moved] ∧
      next.executions = state.executions ++ [execution] := by
  unfold State.acceptances State.boundaries State.executions
  rw [trace]
  simp only [List.filterMap_append]
  cases event with
  | accepted transaction => cases isBoundary
  | executed execution => cases isBoundary
  | wrote connection written => cases isBoundary
  | terminated origin connection => cases isBoundary
  | opened tag =>
      cases isBoundary
      simp [Event.acceptance, Event.boundary, Event.execution]
  | committed tag =>
      cases isBoundary
      simp [Event.acceptance, Event.boundary, Event.execution]
  | discarded tag =>
      cases isBoundary
      simp [Event.acceptance, Event.boundary, Event.execution]

/-- A `TX_DIRECT` block: its command changes no history but executions, or moves the
waiting block of its client. -/
theorem executeTransaction_run {transaction : Transaction σ D} {response : Response}
    (data : block.data = .direct transaction)
    (executed : executeTransaction config state (connectedClient state block.client)
      block.password transaction none = some (after, response))
    (activity : TxActivity σ D) (free : activity.held = []) :
    BlockRun block state { after with txThread := activity } := by
  have pendingOf : State.pending { after with txThread := activity } = after.txQueue := by
    rw [State.pending, free]
    rfl
  cases managesOne : transaction.command.waitingTx with
  | false =>
      rcases executeTransaction_quiet managesOne executed with ⟨quiet, queue, reply, executions⟩
      exact .direct transaction reply data quiet.ended (pendingOf.trans queue) executions
  | true =>
      rcases executeTransaction_turn executed with ⟨next, writeBufs, reply, turn, rfl⟩
      have refused : Quiet state next → next.txQueue = state.txQueue →
          next.executions = state.executions → BlockRun block state
          { State.record { next with writeBufs := writeBufs } [.executed ⟨transaction,
              block.password, (connectedClient state block.client).isSome, none, reply⟩] with
            txThread := activity } := by
        intro quiet queue executions
        refine .direct transaction reply data (Quiet.ended ?_) (pendingOf.trans queue) ?_
        · exact Quiet.record { quiet with } rfl rfl
        · rw [← executions]
          exact executions_record next _
      cases turn with
      | denied slot own =>
          rcases writeMessage_quiet slot ((none : Option Tag).getD transaction.tag) noPermissions with
            ⟨quiet, executions⟩
          refine refused quiet ?_ executions
          rw [writeMessage, writeToSocket_eq]
          rfl
      | ordinary next managesNone change =>
          rw [managesOne] at managesNone
          cases managesNone
      | managed next _ change =>
          generalize commandIs : transaction.command = command at change
          cases change with
          | refused => exact refused Quiet.refl rfl rfl
          | opened slot own closed =>
              obtain rfl := (connectedClient_eq_some own).1
              have moves : Moves transaction.tag block.client block.password transaction.command
                  .opened none (some ⟨block.password, []⟩) [] := by
                rw [commandIs]
                exact .opened
              exact .managed transaction reply .opened none _ [] data own moves closed
                rfl rfl rfl (pendingOf.trans (List.append_nil _).symm)
                (history_moved rfl rfl).1 (history_moved rfl rfl).2.1 (history_moved rfl rfl).2.2
          | committed slot waiting own held room =>
              obtain rfl := (connectedClient_eq_some own).1
              have moves : Moves transaction.tag block.client block.password transaction.command
                  .committed (some waiting) none
                  [⟨block.client, waiting.password,
                    .multiple transaction.tag waiting.transactions⟩] := by
                rw [commandIs]
                exact .committed waiting
              exact .managed transaction reply .committed _ none _ data own moves held
                rfl rfl rfl pendingOf
                (history_moved rfl rfl).1 (history_moved rfl rfl).2.1 (history_moved rfl rfl).2.2
          | discarded slot waiting own held =>
              obtain rfl := (connectedClient_eq_some own).1
              have moves : Moves transaction.tag block.client block.password transaction.command
                  .discarded (some waiting) none [] := by
                rw [commandIs]
                exact .discarded waiting
              exact .managed transaction reply .discarded _ none [] data own moves held
                rfl rfl rfl (pendingOf.trans (List.append_nil _).symm)
                (history_moved rfl rfl).1 (history_moved rfl rfl).2.1 (history_moved rfl rfl).2.2

/-- What the execution of any block does to the history. -/
theorem executeTransactionBlock_run (executed : executeTransactionBlock config state block = some next) :
    BlockRun block state next := by
  cases data : block.data with
  | direct transaction =>
      rcases executeTransactionBlock_direct data executed with
        ⟨after, response, ran, rfl | ⟨connected, rfl⟩⟩
      · exact executeTransaction_run data ran _ rfl
      · exact executeTransaction_run data ran _ rfl
  | multiple exec transactions =>
      rcases executeTransactionBlock_multiple data executed with
        ⟨after, results, ran, connected, rfl⟩
      rcases executeTransactions_quiet ran with ⟨quiet, queue, new, executions, same, under⟩
      exact .multiple exec transactions new data quiet.ended queue executions same under

end Blocks

end TellyDB.Server
