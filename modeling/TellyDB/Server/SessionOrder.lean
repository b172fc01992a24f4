import TellyDB.Server.Sessions

/-!
Owns pipelined session commands: while no SELECT or AUTH is executed that changes the
session a later command of its client was already enqueued with, the server answers
every command as if its client had waited for the replies to those before.
-/

namespace TellyDB.Server

open Resp Lib

variable {σ D K : Type} {threads : Nat}

/-! ## The property and the condition -/

def Execution.request (execution : Execution σ D) : Request σ D where
  tag := execution.transaction.tag
  command := execution.transaction.command
  args := execution.transaction.args
  connected := execution.connected

/-- What comes of the executed commands when each of them is sent after the reply to
the one before. -/
def inTurn [DecidableEq K] (config : Config σ D K) (passwords : Passwords K)
    (begun : Served σ D) (executions : List (Execution σ D)) : Option (Served σ D) :=
  Transition.run (serve config passwords) begun (executions.map Execution.request)

/-- Every command on the databases runs on the database, and with the permissions, that
the commands before it leave to its connection. -/
def RunsInSession [DecidableEq K] (config : Config σ D K) (passwords : Passwords K)
    (begun : Served σ D) (executions : List (Execution σ D)) : Prop :=
  ∀ before execution after data, executions = before ++ execution :: after →
    execution.transaction.command = .data data →
    ∃ served, inTurn config passwords begun before = some served ∧
      execution.transaction.database =
        (served.sessions execution.transaction.tag.origin).database ∧
      passwords.permissions execution.password =
        passwords.permissions (served.sessions execution.transaction.tag.origin).password

/-- Commands are executed in the order in which they were enqueued, which is for each
connection the one in which it sent them; the databases, the sessions and the replies are
those of sending one command after the other. -/
structure InTurn [DecidableEq K] (config : Config σ D K) (passwords : Passwords K)
    (begun : Served σ D) (state : State σ D K threads) : Prop where
  sent : state.acceptances.Pairwise fun first second => first.tag.Before second.tag
  order : state.acceptances = state.executions.map Execution.transaction ++ state.directs
  session : RunsInSession config passwords begun state.executions
  served : ∃ served, inTurn config passwords begun state.executions = some served ∧
    served.databases = state.databases ∧
    served.replies = state.executions.map Execution.reply ∧
    ∀ slot id, (state.clients slot).id = some id →
      served.sessions id = (state.clients slot).session

/-- The step reads no command other than SELECT, AUTH and those on the databases. -/
def Action.usesSession : Action σ D threads → Bool
  | .readNext _ (.known command _) _ => command.usesSession
  | _ => true

/-- The step executes a SELECT or AUTH of a client, one of whose later commands waits in
the transaction queue with the session before, and that makes a difference to it. -/
def outdates [DecidableEq D] [DecidableEq K] (config : Config σ D K)
    (state : State σ D K threads) : Action σ D threads → Bool
  | .txExecute =>
      state.txThread.held.any fun block =>
        let session := (state.clients block.client).session
        let connected := (connectedClient state block.client).isSome
        block.transactions.any fun transaction =>
          (answer config state.passwords state.databases session connected transaction.command
            transaction.tag transaction.args).any fun answered =>
              state.txQueue.any fun waiting =>
                waiting.client == block.client && waiting.anyCommand fun command _ =>
                  session.differs state.passwords answered.session command
  | _ => false

/-! ## The invariant -/

/-- Every command that waits was enqueued with a session that makes no difference to it,
compared with the one `served` has for its connection. -/
structure Serves [DecidableEq D] [DecidableEq K] (config : Config σ D K)
    (passwords : Passwords K) (begun served : Served σ D) (state : State σ D K threads) :
    Prop where
  order : state.acceptances = state.executions.map Execution.transaction ++ state.directs
  session : RunsInSession config passwords begun state.executions
  run : inTurn config passwords begun state.executions = some served
  databases : served.databases = state.databases
  replies : served.replies = state.executions.map Execution.reply
  sessions : ∀ slot id, (state.clients slot).id = some id →
    served.sessions id = (state.clients slot).session
  same : state.passwords = passwords
  closed : ∀ slot id, (state.clients slot).id = some id →
    (state.clients slot).waitingBlock = none
  protover : ∀ slot, (state.clients slot).protover = .resp2
  fresh : ∀ id, state.lastConnectionClientId ≤ id →
    served.sessions id = (newClient config passwords id : Client σ D).session
  waiting : ∀ block ∈ state.pending, ∃ transaction, block.data = .direct transaction ∧
    transaction.command.usesSession = true ∧
    Session.differs passwords ⟨transaction.database, block.password⟩
      (served.sessions transaction.tag.origin) transaction.command = false

section Steps

variable [DecidableEq D] [DecidableEq K] {config : Config σ D K} {passwords : Passwords K}
  {begun served : Served σ D} {state next : State σ D K threads}

/-- A step that changes neither clients nor databases and enqueues and executes nothing. -/
theorem Serves.quiet (serves : Serves config passwords begun served state)
    {events : List (Event σ D)} (clients : next.clients = state.clients)
    (last : next.lastConnectionClientId = state.lastConnectionClientId)
    (databases : next.databases = state.databases)
    (same : next.passwords = state.passwords) (pending : next.pending = state.pending)
    (trace : next.trace = state.trace ++ events)
    (accepts : events.filterMap Event.acceptance = [])
    (runs : events.filterMap Event.execution = []) :
    Serves config passwords begun served next := by
  have acceptances : next.acceptances = state.acceptances := by
    rw [State.acceptances, trace, List.filterMap_append, accepts, List.append_nil,
      State.acceptances]
  have executions : next.executions = state.executions := by
    rw [State.executions, trace, List.filterMap_append, runs, List.append_nil,
      State.executions]
  have directs : next.directs = state.directs := by
    rw [State.directs, pending, State.directs]
  constructor
  · rw [acceptances, executions, directs]
    exact serves.order
  · rw [executions]
    exact serves.session
  · rw [executions]
    exact serves.run
  · rw [databases]
    exact serves.databases
  · rw [executions]
    exact serves.replies
  · rw [clients]
    exact serves.sessions
  · rw [same]
    exact serves.same
  · rw [clients]
    exact serves.closed
  · rw [clients]
    exact serves.protover
  · rw [last]
    exact serves.fresh
  · rw [pending]
    exact serves.waiting

/-- A step that shows nothing either. -/
theorem Serves.still (serves : Serves config passwords begun served state)
    (clients : next.clients = state.clients)
    (last : next.lastConnectionClientId = state.lastConnectionClientId)
    (databases : next.databases = state.databases)
    (same : next.passwords = state.passwords) (pending : next.pending = state.pending)
    (trace : next.trace = state.trace) : Serves config passwords begun served next :=
  serves.quiet clients last databases same pending (trace.trans (List.append_nil _).symm) rfl rfl

/-- A new connection begins with the session it is served with. -/
theorem Serves.connect (serves : Serves config passwords begun served state) {slot count : Nat} :
    Serves config passwords begun served { state with
      clients := Function.update state.clients slot
        (newClient config state.passwords state.lastConnectionClientId)
      clientCount := count
      lastConnectionClientId := state.lastConnectionClientId + 1 } where
  order := serves.order
  session := serves.session
  run := serves.run
  databases := serves.databases
  replies := serves.replies
  sessions other id occupied := by
    simp only [Function.update_apply] at occupied ⊢
    split
    · next here =>
        rw [if_pos here, newClient, Option.some.injEq] at occupied
        rw [← occupied, serves.same]
        exact serves.fresh _ (Nat.le_refl _)
    · next elsewhere =>
        rw [if_neg elsewhere] at occupied
        exact serves.sessions other id occupied
  same := serves.same
  closed other id occupied := by
    simp only [Function.update_apply] at occupied ⊢
    split
    · rfl
    · next elsewhere =>
        rw [if_neg elsewhere] at occupied
        exact serves.closed other id occupied
  protover other := by
    simp only [Function.update_apply]
    split
    · rfl
    · exact serves.protover other
  fresh id new := serves.fresh id (Nat.le_of_succ_le new)
  waiting := serves.waiting

/-- A client that goes takes its slot with it, not its session. -/
theorem Serves.remove (serves : Serves config passwords begun served state) {slot count : Nat} :
    Serves config passwords begun served
      { state.updateClient slot Client.removed with clientCount := count } where
  order := serves.order
  session := serves.session
  run := serves.run
  databases := serves.databases
  replies := serves.replies
  sessions other id occupied := by
    simp only [clients_updateClient] at occupied ⊢
    split
    · next here =>
        rw [if_pos here] at occupied
        cases occupied
    · next elsewhere =>
        rw [if_neg elsewhere] at occupied
        exact serves.sessions other id occupied
  same := serves.same
  closed other id occupied := by
    simp only [clients_updateClient] at occupied ⊢
    split
    · rfl
    · next elsewhere =>
        rw [if_neg elsewhere] at occupied
        exact serves.closed other id occupied
  protover other := by
    simp only [clients_updateClient]
    split
    · exact serves.protover slot
    · exact serves.protover other
  fresh := serves.fresh
  waiting := serves.waiting

/-- A command is enqueued with the session its connection has by then. -/
theorem Serves.enqueue (serves : Serves config passwords begun served state) {slot : Nat}
    {command : Command σ D} (args : List Bytes) (tag : Tag)
    (uses : command.usesSession = true) (occupied : (state.clients slot).id = some tag.origin)
    (clients : next.clients = state.clients)
    (last : next.lastConnectionClientId = state.lastConnectionClientId)
    (databases : next.databases = state.databases)
    (same : next.passwords = state.passwords)
    (pending : next.pending = state.pending ++ [⟨slot, (state.clients slot).password,
      .direct (prepareTransaction (state.clients slot) command args tag)⟩])
    (acceptances : next.acceptances = state.acceptances ++
      [prepareTransaction (state.clients slot) command args tag])
    (executions : next.executions = state.executions) :
    Serves config passwords begun served next := by
  constructor
  · rw [acceptances, executions, State.directs, pending, List.filterMap_append, serves.order,
      List.append_assoc]
    rfl
  · rw [executions]
    exact serves.session
  · rw [executions]
    exact serves.run
  · rw [databases]
    exact serves.databases
  · rw [executions]
    exact serves.replies
  · rw [clients]
    exact serves.sessions
  · rw [same]
    exact serves.same
  · rw [clients]
    exact serves.closed
  · rw [clients]
    exact serves.protover
  · rw [last]
    exact serves.fresh
  · intro block member
    rw [pending] at member
    rcases List.mem_append.mp member with before | new
    · exact serves.waiting block before
    · rw [List.mem_singleton.mp new]
      refine ⟨_, rfl, uses, ?_⟩
      have session := serves.sessions slot tag.origin occupied
      rw [show (prepareTransaction (state.clients slot) command args tag).tag.origin =
        tag.origin from rfl, session]
      exact differs_self

omit [DecidableEq D] in
theorem inTurn_concat (executions : List (Execution σ D)) (execution : Execution σ D) :
    inTurn config passwords begun (executions ++ [execution]) =
      (inTurn config passwords begun executions).bind fun served =>
        serve config passwords served execution.request := by
  rw [inTurn, inTurn, List.map_append, Transition.run_append]
  congr 1
  funext served
  exact Option.bind_fun_some _

omit [DecidableEq D] in
/-- One more command that ran in the session the commands before it left. -/
theorem RunsInSession.concat {executions : List (Execution σ D)} {execution : Execution σ D}
    (earlier : RunsInSession config passwords begun executions)
    (run : inTurn config passwords begun executions = some served)
    (last : ∀ data, execution.transaction.command = .data data →
      execution.transaction.database =
        (served.sessions execution.transaction.tag.origin).database ∧
      passwords.permissions execution.password =
        passwords.permissions (served.sessions execution.transaction.tag.origin).password) :
    RunsInSession config passwords begun (executions ++ [execution]) := by
  intro before other after data split isData
  rcases List.eq_nil_or_concat after with rfl | ⟨rest, final, rfl⟩
  · rcases List.append_inj' split rfl with ⟨rfl, same⟩
    cases same
    exact ⟨served, run, last data isData⟩
  · rw [List.concat_eq_append, ← List.cons_append, ← List.append_assoc] at split
    exact earlier before other rest data (List.append_inj' split rfl).1 isData

/-- The guard, for one command that waits behind the popped one. -/
theorem outdates_eq_false {block waiting : TransactionBlock σ D}
    {transaction other : Transaction σ D} {answered : Answer σ D}
    (kept : outdates config state (.txExecute : Action σ D threads) = false)
    (held : state.txThread = .popped block) (data : block.data = .direct transaction)
    (expected : answer config state.passwords state.databases
      (state.clients block.client).session (connectedClient state block.client).isSome
      transaction.command transaction.tag transaction.args = some answered)
    (member : waiting ∈ state.txQueue) (beside : waiting.client = block.client)
    (behind : waiting.data = .direct other) :
    (state.clients block.client).session.differs state.passwords answered.session
      other.command = false := by
  simp only [outdates, held, TxActivity.held, List.any_cons, List.any_nil, Bool.or_false,
    TransactionBlock.transactions, data, expected, Option.any_some, List.any_eq_false] at kept
  have alone := kept waiting member
  simpa [beside, TransactionBlock.anyCommand, TransactionBlock.transactions, behind] using alone

/-- The session of a connection once one of its commands is answered. -/
def Served.after (served : Served σ D) (origin : Nat) (answered : Answer σ D) : Served σ D where
  databases := answered.databases
  sessions := Function.update served.sessions origin answered.session
  replies := served.replies ++ [answered.reply]

omit [DecidableEq D] [DecidableEq K] in
theorem sessions_after {origin : Nat} {answered : Answer σ D} (other : Nat) :
    (served.after origin answered).sessions other =
      if other = origin then answered.session else served.sessions other :=
  Function.update_apply _ _ _ _

/-- A command is answered as it is in turn, and those behind it wait with sessions that
still make no difference to them. -/
theorem Serves.answered (serves : Serves config passwords begun served state)
    {block : TransactionBlock σ D} {transaction : Transaction σ D} {answered : Answer σ D}
    (held : state.txThread = .popped block) (data : block.data = .direct transaction)
    (homed : Homed state transaction.tag.origin block.client)
    (home : ∀ slot, (state.clients slot).id = some transaction.tag.origin → slot = block.client)
    (expected : answer config passwords served.databases
      (served.sessions transaction.tag.origin) (connectedClient state block.client).isSome
      transaction.command transaction.tag transaction.args = some answered)
    (done : Answered (connectedClient state block.client) answered state next)
    (quiet : Quiet state next) (pending : next.pending = state.txQueue)
    (executions : next.executions = state.executions ++
      [⟨transaction, block.password, (connectedClient state block.client).isSome, none,
        answered.reply⟩])
    (unchanged : ∀ waiting ∈ state.txQueue, ∀ other, waiting.data = .direct other →
      other.tag.origin = transaction.tag.origin →
      (served.sessions transaction.tag.origin).differs passwords answered.session
        other.command = false) :
    Serves config passwords begun (served.after transaction.tag.origin answered) next := by
  rcases serves.waiting block (held_block held) with ⟨own, ownData, uses, current⟩
  rw [data, BlockData.direct.injEq] at ownData
  rw [← ownData] at uses current
  have acceptances := quiet.acceptances
  constructor
  · rw [acceptances, executions, serves.order, directs_popped held data, State.directs, pending,
      List.map_append, List.append_assoc]
    rfl
  · rw [executions]
    refine serves.session.concat serves.run fun command isData => ?_
    rw [isData] at current
    exact differs_data.mp current
  · rw [executions, inTurn_concat, serves.run, Option.bind_some, serve]
    simp only [Execution.request, expected]
    rfl
  · exact done.databases.symm
  · rw [executions, List.map_append, ← serves.replies]
    rfl
  · intro slot id occupied
    rcases quiet.stays occupied with ⟨before, _⟩
    rw [sessions_after]
    split
    · next same =>
        rw [same] at before
        have here := home slot before
        rw [here] at before ⊢
        have connected : connectedClient state block.client = some block.client := by
          rw [connectedClient, before]
          rfl
        exact (done.session block.client connected).symm
    · next different =>
        rw [done.others slot]
        · exact serves.sessions slot id before
        · intro connected
          rcases connectedClient_eq_some connected with ⟨rfl, _⟩
          exact different (homed.occupant before)
  · rw [done.passwords]
    exact serves.same
  · intro slot id occupied
    rcases quiet.stays occupied with ⟨before, waiting⟩
    rw [waiting]
    exact serves.closed slot id before
  · intro slot
    rw [done.protover]
    exact serves.protover slot
  · intro id new
    rw [quiet.lastConnectionClientId] at new
    rw [sessions_after, if_neg (Nat.ne_of_gt (Nat.lt_of_lt_of_le homed.1 new))]
    exact serves.fresh id new
  · intro waiting member
    rw [pending] at member
    rcases serves.waiting waiting (List.mem_append_right _ member) with
      ⟨other, otherData, otherUses, before⟩
    refine ⟨other, otherData, otherUses, ?_⟩
    rw [sessions_after]
    split
    · next same =>
        rw [same] at before
        exact differs_trans before (unchanged waiting member other otherData same)
    · exact before

theorem Serves.execute [NeZero threads] (serves : Serves config passwords begun served state)
    (attached : Attached state) (numbered : Numbered state) {block : TransactionBlock σ D}
    (held : state.txThread = .popped block)
    (kept : outdates config state (.txExecute : Action σ D threads) = false)
    (executed : executeTransactionBlock config state block = some next) :
    ∃ later, Serves config passwords begun later next := by
  rcases serves.waiting block (held_block held) with ⟨transaction, data, uses, current⟩
  have tag : block.tag = transaction.tag := by rw [TransactionBlock.tag, data]
  have homed := (attached.blocks block (held_block held)).1
  have home := numbered.home block (held_block held)
  rw [tag] at homed home
  have own : ∀ slot, connectedClient state block.client = some slot →
      (state.clients slot).session = served.sessions transaction.tag.origin ∧
        (state.clients slot).protover = .resp2 := by
    intro slot connected
    rcases connectedClient_eq_some connected with ⟨rfl, id, occupied⟩
    rw [homed.occupant occupied] at occupied
    exact ⟨(serves.sessions _ _ occupied).symm, serves.protover _⟩
  rcases executeTransactionBlock_direct data executed with ⟨after, response, ran, ended⟩
  rw [← serves.same] at current
  rcases executeTransaction_answers uses own current ran with
    ⟨answered, expected, done, executions⟩
  rcases executeTransaction_quiet (usesSession_managesNone uses) ran with ⟨quiet, queue, _⟩
  have unchanged : ∀ waiting ∈ state.txQueue, ∀ other, waiting.data = .direct other →
      other.tag.origin = transaction.tag.origin →
      (served.sessions transaction.tag.origin).differs passwords answered.session
        other.command = false := by
    intro waiting member other otherData same
    cases connected : connectedClient state block.client with
    | none =>
        rw [connected] at expected
        rw [answer_departed expected]
        exact differs_self
    | some slot =>
        rcases connectedClient_eq_some connected with ⟨rfl, id, occupied⟩
        have beside : waiting.client = block.client := by
          refine (numbered.home waiting (List.mem_append_right _ member) block.client ?_).symm
          rw [TransactionBlock.tag, otherData, same, occupied, homed.occupant occupied]
        have session := (own _ connected).1
        rw [← session] at expected ⊢
        rw [← serves.same]
        exact outdates_eq_false kept held data expected member beside otherData
  rw [← serves.databases, serves.same] at expected
  refine ⟨served.after transaction.tag.origin answered, ?_⟩
  rcases ended with rfl | ⟨_, rfl⟩
  · exact serves.answered held data homed home expected { done with } { quiet with } queue
      executions unchanged
  · exact serves.answered held data homed home expected { done with } { quiet with } queue
      executions unchanged

theorem Serves.step [NeZero threads] {action : Action σ D threads}
    (serves : Serves config passwords begun served state)
    (attached : Attached state) (numbered : Numbered state)
    (uses : action.usesSession = true) (kept : outdates config state action = false)
    (stepped : TellyDB.Server.step config state action = some next) :
    ∃ later, Serves config passwords begun later next := by
  cases step_stepped stepped with
  | rejected => exact ⟨served, serves⟩
  | connected slot admitted available => exact ⟨served, serves.connect⟩
  | event slot origin closed =>
      rw [addIoRequest_eq]
      exact ⟨served, serves.still rfl rfl rfl rfl rfl rfl⟩
  | popped thread operation rest idle queue =>
      exact ⟨served, serves.still rfl rfl rfl rfl rfl rfl⟩
  | dropped thread operation held gone =>
      exact ⟨served, serves.still rfl rfl rfl rfl rfl rfl⟩
  | terminated thread operation id found held occupied type same =>
      have removed : Serves config passwords begun served
          { state.updateClient found Client.removed with clientCount := state.clientCount - 1 } :=
        serves.remove
      exact ⟨served, removed.quiet rfl rfl rfl rfl rfl rfl rfl rfl⟩
  | reading thread operation id held occupied type =>
      exact ⟨served, serves.still rfl rfl rfl rfl rfl rfl⟩
  | wrote thread operation id sequence toWrite produced held occupied type =>
      exact ⟨served, serves.quiet rfl rfl rfl rfl rfl rfl rfl rfl⟩
  | locked thread input allocated slot origin id activity occupied =>
      exact ⟨served, serves.quiet rfl rfl rfl rfl rfl rfl rfl rfl⟩
  | unknown thread name allocated slot origin id activity occupied =>
      rw [addIoRequest_eq]
      exact ⟨served, serves.still rfl rfl rfl rfl rfl rfl⟩
  | limited thread command args slot origin id activity occupied =>
      exact ⟨served, serves.quiet rfl rfl rfl rfl rfl rfl rfl rfl⟩
  | queued thread command args slot origin id block activity occupied waiting managesNone unlocked =>
      rw [serves.closed slot id occupied] at waiting
      cases waiting
  | enqueued thread command args slot origin id activity occupied direct room unlocked =>
      have reads := attached.readers thread slot origin (by rw [activity]; rfl)
      rw [reads.1.occupant occupied] at occupied
      refine ⟨served, serves.enqueue args ⟨origin, state.sent origin⟩ uses occupied rfl rfl rfl
        rfl ?_ ?_ ?_⟩
      · exact (List.append_assoc _ _ _).symm
      · exact acceptances_record _ _
      · exact (executions_record _ _).trans (List.append_nil _)
  | answered thread slot id tag activity occupied waiting =>
      exact ⟨served, serves.quiet rfl rfl rfl rfl rfl rfl rfl rfl⟩
  | unanswered thread slot id tag waitingTx activity occupied =>
      exact ⟨served, serves.still rfl rfl rfl rfl rfl rfl⟩
  | ended thread slot origin activity =>
      exact ⟨served, serves.still rfl rfl rfl rfl rfl rfl⟩
  | streamEnded thread slot origin activity =>
      rw [addIoRequest_eq]
      exact ⟨served, serves.still rfl rfl rfl rfl rfl rfl⟩
  | blockPopped block rest idle queue =>
      refine ⟨served, serves.still rfl rfl rfl rfl ?_ rfl⟩
      rw [State.pending, State.pending, idle, queue]
      rfl
  | executed block next held ran => exact serves.execute attached numbered held kept ran
  | responded slot tag toWrite produced responding =>
      rw [addIoRequest_eq]
      refine ⟨served, serves.still rfl rfl rfl rfl ?_ rfl⟩
      rw [State.pending, State.pending, responding]
      rfl

end Steps

section Runs

variable [NeZero threads] [DecidableEq D] [DecidableEq K]

abbrev KeysAction : Type := Action (List (Bytes × Bytes)) Bytes 2

def readsOne (command : Command (List (Bytes × Bytes)) Bytes) (args : List Bytes) :
    List KeysAction :=
  [.readNext (threadOf 1) (.known command args) true, .readQueued (threadOf 1)]

def begins : List KeysAction := [.event 1 1 false, .ioPop (threadOf 1), .ioPerform (threadOf 1)]

def replies : List KeysAction :=
  [.txPop, .txExecute, .txRespond, .ioPop (threadOf 1), .ioPerform (threadOf 1)]

/-- One command, and its reply before anything else. -/
def asked (command : Command (List (Bytes × Bytes)) Bytes) (args : List Bytes) :
    List KeysAction :=
  begins ++ readsOne command args ++ [.readEnd (threadOf 1) false] ++ replies

end Runs

end TellyDB.Server
