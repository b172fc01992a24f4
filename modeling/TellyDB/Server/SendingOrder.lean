import TellyDB.Server.History

/-!
Owns the numbers of commands: the commands of one connection are enqueued in the
order in which they were sent, and the direct ones are executed in that order. What a
step can do to a history is said once here, for all that follows.
-/

namespace TellyDB.Server

open Resp Lib

variable {σ D K : Type} {threads : Nat}

/-! ## The order of sending -/

/-- If both were sent by one connection, the first was sent first. -/
def Tag.Before (first second : Tag) : Prop :=
  first.origin = second.origin → first.sequence < second.sequence

/-- The commands of a connection are enqueued, and its direct ones executed, in the
order in which they were sent, and its blocks stay at its slot. -/
structure Numbered (state : State σ D K threads) : Prop where
  acceptances : state.acceptances.Pairwise fun first second => first.tag.Before second.tag
  accepted : ∀ transaction ∈ state.acceptances,
    transaction.tag.sequence < state.sent transaction.tag.origin
  directs : state.directs.Pairwise fun first second => first.tag.Before second.tag
  pending : ∀ transaction ∈ state.directs, transaction ∈ state.acceptances
  executed : ∀ execution ∈ state.executions, execution.block = none →
    execution.transaction ∈ state.acceptances ∧
      ∀ transaction ∈ state.directs, execution.transaction.tag.Before transaction.tag
  home : ∀ block ∈ state.pending, ∀ slot,
    (state.clients slot).id = some block.tag.origin → slot = block.client

section Numbers

variable {state next : State σ D K threads}

/-- A change that enqueues no command. -/
theorem Numbered.change (numbered : Numbered state)
    (sent : ∀ origin, state.sent origin ≤ next.sent origin)
    (acceptances : next.acceptances = state.acceptances)
    (directs : next.directs.Sublist state.directs)
    (executed : ∀ execution ∈ next.executions, execution ∈ state.executions ∨
      (execution.block = none → execution.transaction ∈ state.acceptances ∧
        ∀ transaction ∈ next.directs, execution.transaction.tag.Before transaction.tag))
    (home : ∀ block ∈ next.pending, ∀ slot,
      (next.clients slot).id = some block.tag.origin → slot = block.client) :
    Numbered next where
  acceptances := by
    rw [acceptances]
    exact numbered.acceptances
  accepted := by
    intro transaction member
    rw [acceptances] at member
    exact Nat.lt_of_lt_of_le (numbered.accepted transaction member) (sent _)
  directs := numbered.directs.sublist directs
  pending := by
    intro transaction member
    rw [acceptances]
    exact numbered.pending transaction (directs.subset member)
  executed := by
    intro execution member direct
    rw [acceptances]
    rcases executed execution member with before | new
    · have ran := numbered.executed execution before direct
      exact ⟨ran.1, fun transaction waits => ran.2 transaction (directs.subset waits)⟩
    · exact new direct
  home := home

/-- A step that leaves the history and the blocks alone. -/
theorem Numbered.quiet (numbered : Numbered state) (quiet : Quiet state next)
    (pending : next.pending = state.pending) (executions : next.executions = state.executions) :
    Numbered next := by
  refine numbered.change quiet.sent quiet.acceptances ?_ ?_ ?_
  · rw [State.directs, pending, State.directs]
  · intro execution member
    rw [executions] at member
    exact .inl member
  · intro block member slot occupied
    rw [pending] at member
    exact numbered.home block member slot (quiet.stays occupied).1

/-- The next command of a connection is enqueued, alone or into a waiting block. -/
theorem Numbered.accept (numbered : Numbered state) (transaction : Transaction σ D)
    (number : transaction.tag.sequence = state.sent transaction.tag.origin)
    (sent : next.sent = Function.update state.sent transaction.tag.origin
      (state.sent transaction.tag.origin + 1))
    (acceptances : next.acceptances = state.acceptances ++ [transaction])
    (executions : next.executions = state.executions)
    (directs : next.directs = state.directs ∨ next.directs = state.directs ++ [transaction])
    (home : ∀ block ∈ next.pending, ∀ slot,
      (next.clients slot).id = some block.tag.origin → slot = block.client) :
    Numbered next := by
  have last : ∀ other ∈ state.acceptances, other.tag.Before transaction.tag := by
    intro other member same
    rw [number, ← same]
    exact numbered.accepted other member
  have grows : ∀ origin, state.sent origin ≤ next.sent origin := by
    intro origin
    rw [sent, Function.update_apply]
    split
    · next same => rw [same]; exact Nat.le_succ _
    · exact Nat.le_refl _
  refine ⟨?_, ?_, ?_, ?_, ?_, home⟩
  · rw [acceptances, List.pairwise_append]
    refine ⟨numbered.acceptances, List.pairwise_singleton _ _, ?_⟩
    intro other member new here
    rw [List.mem_singleton.mp here]
    exact last other member
  · intro other member
    rw [acceptances] at member
    rcases List.mem_append.mp member with before | new
    · exact Nat.lt_of_lt_of_le (numbered.accepted other before) (grows _)
    · rw [List.mem_singleton.mp new, sent, Function.update_self, number]
      exact Nat.lt_succ_self _
  · rcases directs with same | added
    · rw [same]
      exact numbered.directs
    · rw [added, List.pairwise_append]
      refine ⟨numbered.directs, List.pairwise_singleton _ _, ?_⟩
      intro other member new here
      rw [List.mem_singleton.mp here]
      exact last other (numbered.pending other member)
  · intro other member
    rw [acceptances, List.mem_append]
    rcases directs with same | added
    · rw [same] at member
      exact .inl (numbered.pending other member)
    · rw [added] at member
      exact (List.mem_append.mp member).imp_left (numbered.pending other)
  · intro execution member direct
    rw [executions] at member
    have ran := numbered.executed execution member direct
    refine ⟨?_, ?_⟩
    · rw [acceptances]
      exact List.mem_append_left _ ran.1
    · intro other waits
      rcases directs with same | added
      · rw [same] at waits
        exact ran.2 other waits
      · rw [added] at waits
        rcases List.mem_append.mp waits with before | new
        · exact ran.2 other before
        · rw [List.mem_singleton.mp new]
          exact last _ ran.1

/-- A popped block leads the pending ones. -/
theorem pending_popped {block : TransactionBlock σ D} (held : state.txThread = .popped block) :
    state.pending = block :: state.txQueue := by
  rw [State.pending, held]
  rfl

theorem directs_popped {block : TransactionBlock σ D} {transaction : Transaction σ D}
    (held : state.txThread = .popped block) (data : block.data = .direct transaction) :
    state.directs = transaction :: state.txQueue.filterMap TransactionBlock.direct := by
  have direct : block.direct = some transaction := by rw [TransactionBlock.direct, data]
  rw [State.directs, pending_popped held, List.filterMap_cons_some direct]

/-- Only the popped block leaves the direct transactions. -/
theorem BlockRun.directs {block : TransactionBlock σ D} (ran : BlockRun block state next) :
    next.directs = state.txQueue.filterMap TransactionBlock.direct := by
  cases ran with
  | direct transaction reply data quiet pending executions => rw [State.directs, pending]
  | managed transaction reply boundary before after new data connected moves waiting clients last
      sent pending acceptances boundaries executions =>
      rw [State.directs, pending, List.filterMap_append,
        List.filterMap_eq_nil_iff.mpr fun other added => (moves.new other added).1,
        List.append_nil]
  | multiple exec transactions new data quiet pending executions same under =>
      rw [State.directs, pending]

/-- A direct transaction that is executed leads the ones that wait. -/
theorem BlockRun.leads {block : TransactionBlock σ D} {transaction : Transaction σ D}
    (ran : BlockRun block state next) (held : state.txThread = .popped block)
    (data : block.data = .direct transaction) :
    state.directs = transaction :: next.directs := by
  rw [ran.directs, directs_popped held data]

theorem BlockRun.subset {block : TransactionBlock σ D}
    (ran : BlockRun block state next) (held : state.txThread = .popped block) :
    next.directs.Sublist state.directs := by
  rw [ran.directs, State.directs, pending_popped held]
  exact (List.sublist_cons_self _ _).filterMap _

/-- A direct transaction leaves the pending ones, and runs before all of them. -/
theorem Numbered.run (numbered : Numbered state) {block : TransactionBlock σ D}
    (held : state.txThread = .popped block) (ran : BlockRun block state next) :
    Numbered next := by
  have later : ∀ {transaction : Transaction σ D} {execution : Execution σ D},
      block.data = .direct transaction → execution.transaction = transaction →
      execution.block = none → execution.transaction ∈ state.acceptances ∧
        ∀ other ∈ next.directs, execution.transaction.tag.Before other.tag := by
    intro transaction execution data same _
    have sorted := numbered.directs
    rw [ran.leads held data, List.pairwise_cons] at sorted
    rw [same]
    refine ⟨numbered.pending transaction ?_, sorted.1⟩
    rw [ran.leads held data]
    exact List.mem_cons_self
  have home : ∀ other ∈ state.txQueue, ∀ slot,
      (state.clients slot).id = some other.tag.origin → slot = other.client := by
    intro other member
    apply numbered.home other
    rw [pending_popped held]
    exact List.mem_cons_of_mem _ member
  have fewer := ran.subset held
  cases ran with
  | direct transaction reply data quiet pending executions =>
      refine numbered.change quiet.sent quiet.acceptances fewer ?_ ?_
      · intro execution member
        rw [executions] at member
        refine (List.mem_append.mp member).imp_right fun new => ?_
        exact later data (by rw [List.mem_singleton.mp new])
      · intro other member slot occupied
        rw [pending] at member
        exact home other member slot (quiet.stays occupied).1
  | managed transaction reply boundary before after new data connected moves waiting clients last
      sent pending acceptances boundaries executions =>
      refine numbered.change (fun _ => by rw [sent]) acceptances fewer ?_ ?_
      · intro execution member
        rw [executions] at member
        refine (List.mem_append.mp member).imp_right fun new => ?_
        exact later data (by rw [List.mem_singleton.mp new])
      · intro other member slot occupied
        rw [clients, id_setWaitingBlock] at occupied
        rw [pending] at member
        rcases List.mem_append.mp member with queued | added
        · exact home other queued slot occupied
        · rcases moves.new other added with ⟨_, tag, here⟩
          have own : block.tag = transaction.tag := by rw [TransactionBlock.tag, data]
          rw [tag, ← own] at occupied
          rw [here]
          exact numbered.home block (held_block held) slot occupied
  | multiple exec transactions new data quiet pending executions same under =>
      refine numbered.change quiet.sent quiet.acceptances fewer ?_ ?_
      · intro execution member
        rw [executions] at member
        refine (List.mem_append.mp member).imp_right fun here direct => ?_
        rw [under execution here] at direct
        cases direct
      · intro other member slot occupied
        rw [pending] at member
        exact home other member slot (quiet.stays occupied).1

end Numbers

/-! ## Steps -/

section Steps

variable [NeZero threads]

/-- What one step does to the history. -/
inductive Advance (config : Config σ D K) (state : State σ D K threads) :
    Action σ D threads → State σ D K threads → Prop
  | quiet (action : Action σ D threads) (next : State σ D K threads) (quiet : Quiet state next)
      (pending : next.pending = state.pending) (executions : next.executions = state.executions) :
      Advance config state action next
  | connected (slot : Nat)
      (admitted : acceptRefused config state = false)
      (available : getAvailableClientSlot config.maxClients state.clients
        state.lastConnectionClientId = some slot) :
      Advance config state .accept { state with
        clients := Function.update state.clients slot
          (newClient config state.passwords state.lastConnectionClientId)
        clientCount := state.clientCount + 1
        lastConnectionClientId := state.lastConnectionClientId + 1 }
  | queued (thread : Fin threads) (command : Command σ D) (args : List Bytes)
      (slot origin : Nat) (waiting : WaitingBlock σ D) (transaction : QueuedTransaction σ D)
      (next : State σ D K threads)
      (activity : (state.ioThreads thread).activity = .reading slot origin)
      (occupied : ∃ id, (state.clients slot).id = some id)
      (unlocked : (state.clients slot).locked = false)
      (waits : (state.clients slot).waitingBlock = some waiting)
      (made : transaction.val =
        prepareTransaction (state.clients slot) command args ⟨origin, state.sent origin⟩)
      (clients : next.clients = (state.setWaitingBlock slot
        (some { waiting with transactions := waiting.transactions ++ [transaction] })).clients)
      (last : next.lastConnectionClientId = state.lastConnectionClientId)
      (sent : next.sent = Function.update state.sent origin (state.sent origin + 1))
      (pending : next.pending = state.pending)
      (acceptances : next.acceptances = state.acceptances ++ [transaction.val])
      (boundaries : next.boundaries = state.boundaries)
      (executions : next.executions = state.executions) :
      Advance config state (.readNext thread (.known command args) true) next
  | enqueued (thread : Fin threads) (command : Command σ D) (args : List Bytes)
      (slot origin : Nat) (transaction : Transaction σ D) (next : State σ D K threads)
      (activity : (state.ioThreads thread).activity = .reading slot origin)
      (occupied : ∃ id, (state.clients slot).id = some id)
      (unlocked : (state.clients slot).locked = false)
      (direct : (state.clients slot).waitingBlock = none ∨ command.waitingTx = true)
      (made : transaction =
        prepareTransaction (state.clients slot) command args ⟨origin, state.sent origin⟩)
      (clients : next.clients = state.clients)
      (last : next.lastConnectionClientId = state.lastConnectionClientId)
      (sent : next.sent = Function.update state.sent origin (state.sent origin + 1))
      (pending : next.pending =
        state.pending ++ [⟨slot, (state.clients slot).password, .direct transaction⟩])
      (acceptances : next.acceptances = state.acceptances ++ [transaction])
      (boundaries : next.boundaries = state.boundaries)
      (executions : next.executions = state.executions) :
      Advance config state (.readNext thread (.known command args) true) next
  | ran (block : TransactionBlock σ D) (next : State σ D K threads)
      (held : state.txThread = .popped block) (run : BlockRun block state next) :
      Advance config state .txExecute next

variable {config : Config σ D K} {state next : State σ D K threads}

omit [NeZero threads] in
/-- Events of another kind, and changes of the I/O threads and of numbers only. -/
theorem Quiet.of_eq {events : List (Event σ D)}
    (last : next.lastConnectionClientId = state.lastConnectionClientId)
    (clients : next.clients = state.clients)
    (sent : ∀ origin, state.sent origin ≤ next.sent origin)
    (trace : next.trace = state.trace ++ events)
    (accepts : events.filterMap Event.acceptance = [])
    (bounds : events.filterMap Event.boundary = []) : Quiet state next where
  lastConnectionClientId := last
  sent := sent
  id slot := .inl (by rw [clients])
  waitingBlock slot := .inl (by rw [clients])
  acceptances := by
    rw [State.acceptances, trace, List.filterMap_append, accepts, List.append_nil,
      State.acceptances]
  boundaries := by
    rw [State.boundaries, trace, List.filterMap_append, bounds, List.append_nil,
      State.boundaries]

omit [NeZero threads] in
/-- The same, as a step. -/
theorem Advance.of_eq {action : Action σ D threads} {events : List (Event σ D)}
    (last : next.lastConnectionClientId = state.lastConnectionClientId)
    (clients : next.clients = state.clients)
    (sent : ∀ origin, state.sent origin ≤ next.sent origin)
    (pending : next.pending = state.pending)
    (trace : next.trace = state.trace ++ events)
    (accepts : events.filterMap Event.acceptance = [])
    (bounds : events.filterMap Event.boundary = [])
    (runs : events.filterMap Event.execution = []) : Advance config state action next := by
  refine .quiet action next (.of_eq last clients sent trace accepts bounds) pending ?_
  rw [State.executions, trace, List.filterMap_append, runs, List.append_nil, State.executions]

omit [NeZero threads] in
theorem sent_le_countCommand (origin other : Nat) :
    state.sent other ≤ (state.countCommand origin).sent other := by
  simp only [State.countCommand, Function.update_apply]
  split
  · next same =>
      rw [same]
      exact Nat.le_succ _
  · exact Nat.le_refl _

variable [DecidableEq K]

theorem step_advance {action : Action σ D threads}
    (stepped : step config state action = some next) : Advance config state action next := by
  have unchanged : ∀ origin, state.sent origin ≤ state.sent origin := fun _ => Nat.le_refl _
  cases step_stepped stepped with
  | rejected => exact .quiet _ _ Quiet.refl rfl rfl
  | connected slot admitted available => exact .connected slot admitted available
  | event slot origin closed =>
      rw [addIoRequest_eq]
      exact .of_eq rfl rfl unchanged rfl (List.append_nil _).symm rfl rfl rfl
  | popped thread operation rest idle queue =>
      exact .of_eq rfl rfl unchanged rfl (List.append_nil _).symm rfl rfl rfl
  | dropped thread operation held gone =>
      exact .of_eq rfl rfl unchanged rfl (List.append_nil _).symm rfl rfl rfl
  | terminated thread operation id found held occupied type same =>
      have removed := (removed_ordinary False none : Ordinary False True none state
        { state.updateClient found Client.removed with clientCount := state.clientCount - 1 }).quiet
      refine .quiet _ _ (Quiet.record { removed with } rfl rfl) rfl ?_
      exact (executions_record { state.updateClient found Client.removed with
        clientCount := state.clientCount - 1 } _).trans (List.append_nil _)
  | reading thread operation id held occupied type =>
      exact .of_eq rfl rfl unchanged rfl (List.append_nil _).symm rfl rfl rfl
  | wrote thread operation id sequence toWrite produced held occupied type =>
      exact .of_eq rfl rfl unchanged rfl rfl rfl rfl rfl
  | locked thread input allocated slot origin id activity occupied =>
      exact .of_eq rfl rfl (sent_le_countCommand origin) rfl rfl rfl rfl rfl
  | unknown thread name allocated slot origin id activity occupied =>
      rw [addIoRequest_eq]
      exact .of_eq rfl rfl (sent_le_countCommand origin) rfl (List.append_nil _).symm rfl rfl rfl
  | limited thread command args slot origin id activity occupied =>
      exact .of_eq rfl rfl (sent_le_countCommand origin) rfl rfl rfl rfl rfl
  | queued thread command args slot origin id block activity occupied waiting managesNone unlocked =>
      refine .queued thread command args slot origin block _ _ activity ⟨id, occupied⟩ unlocked
        waiting rfl rfl rfl rfl rfl ?_ ?_ ?_
      · exact acceptances_record _ _
      · exact (boundaries_record _ _).trans (List.append_nil _)
      · exact (executions_record _ _).trans (List.append_nil _)
  | enqueued thread command args slot origin id activity occupied direct room unlocked =>
      refine .enqueued thread command args slot origin _ _ activity ⟨id, occupied⟩ unlocked
        direct rfl rfl rfl rfl ?_ ?_ ?_ ?_
      · exact (List.append_assoc _ _ _).symm
      · exact acceptances_record _ _
      · exact (boundaries_record _ _).trans (List.append_nil _)
      · exact (executions_record _ _).trans (List.append_nil _)
  | answered thread slot id tag activity occupied waiting =>
      exact .of_eq rfl rfl unchanged rfl rfl rfl rfl rfl
  | unanswered thread slot id tag waitingTx activity occupied =>
      exact .of_eq rfl rfl unchanged rfl (List.append_nil _).symm rfl rfl rfl
  | ended thread slot origin activity =>
      exact .of_eq rfl rfl unchanged rfl (List.append_nil _).symm rfl rfl rfl
  | streamEnded thread slot origin activity =>
      rw [addIoRequest_eq]
      exact .of_eq rfl rfl unchanged rfl (List.append_nil _).symm rfl rfl rfl
  | blockPopped block rest idle queue =>
      refine .of_eq rfl rfl unchanged ?_ (List.append_nil _).symm rfl rfl rfl
      rw [State.pending, State.pending, idle, queue]
      rfl
  | executed block next held ran => exact .ran block next held (executeTransactionBlock_run ran)
  | responded slot tag toWrite produced responding =>
      rw [addIoRequest_eq]
      refine .of_eq rfl rfl unchanged ?_ (List.append_nil _).symm rfl rfl rfl
      rw [State.pending, State.pending, responding]
      rfl

/-- The order of sending is kept while no slot is reused too early. -/
theorem Numbered.step {action : Action σ D threads} (numbered : Numbered state)
    (attached : Attached state) (stepped : step config state action = some next) :
    Numbered next := by
  cases step_advance stepped with
  | quiet _ _ quiet pending executions => exact numbered.quiet quiet pending executions
  | connected slot admitted available =>
      refine numbered.change (fun _ => Nat.le_refl _) rfl (List.Sublist.refl _)
        (fun _ member => .inl member) ?_
      intro block member other occupied
      have known := (attached.blocks block member).1.1
      simp only [Function.update_apply] at occupied
      split at occupied
      · have same : state.lastConnectionClientId = block.tag.origin := Option.some.inj occupied
        rw [same] at known
        exact absurd known (Nat.lt_irrefl _)
      · exact numbered.home block member other occupied
  | queued thread command args slot origin waiting transaction _ activity occupied unlocked waits
      made clients last sent pending acceptances boundaries executions =>
      have number : transaction.val.tag = ⟨origin, state.sent origin⟩ := by rw [made]; rfl
      refine numbered.accept transaction.val (by rw [number]) ?_ acceptances executions ?_ ?_
      · rw [sent, number]
      · exact .inl (by rw [State.directs, pending, State.directs])
      · intro block member other here
        rw [clients, id_setWaitingBlock] at here
        rw [pending] at member
        exact numbered.home block member other here
  | enqueued thread command args slot origin transaction _ activity occupied unlocked direct made
      clients last sent pending acceptances boundaries executions =>
      have number : transaction.tag = ⟨origin, state.sent origin⟩ := by rw [made]; rfl
      refine numbered.accept transaction (by rw [number]) ?_ acceptances executions ?_ ?_
      · rw [sent, number]
      · refine .inr ?_
        rw [State.directs, pending, List.filterMap_append]
        rfl
      · intro block member other here
        rw [clients] at here
        rw [pending] at member
        rcases List.mem_append.mp member with before | new
        · exact numbered.home block before other here
        · rw [List.mem_singleton.mp new] at here ⊢
          have reads := attached.readers thread slot origin (by rw [activity]; rfl)
          rcases occupied with ⟨id, occupied⟩
          have home := reads.1.occupant occupied
          rw [home] at occupied
          have tag : transaction.tag.origin = origin := by rw [number]
          apply attached.unique other slot origin _ occupied
          rw [here, ← tag]
          rfl
  | ran block _ held run => exact numbered.run held run

end Steps

end TellyDB.Server
