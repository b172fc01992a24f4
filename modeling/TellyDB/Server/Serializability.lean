import Mathlib.Data.List.Flatten
import Mathlib.Data.List.Perm.Subperm
import TellyDB.Lib.Histories
import TellyDB.Server.Departure
import TellyDB.Server.ReplyIntegrity
import TellyDB.Server.SendingOrder

/-!
Owns the one order in which commands take effect: whatever the threads do between each other, the
databases are those of the executed commands one after the other, each with the reply it has at
its turn, each at one point after it was accepted, and none of them twice.
-/

namespace TellyDB.Server

open Resp Lib Lib.Histories

variable {σ D K : Type} {threads : Nat}

/-! ## What one command does to the databases -/

/-- The execution takes the databases there, and says so. -/
inductive Takes (config : Config σ D K) (execution : Execution σ D) : σ → σ → Prop
  | ran {command : DataCommand σ D} {entry : DataEntry D} {databases next : σ}
      {response : Response} (keyed : execution.transaction.command = .data command)
      (args : entry.args = execution.transaction.args)
      (database : entry.database = execution.transaction.database)
      (client : entry.protover.isSome = execution.connected)
      (granted : entry.permissions &&& command.permissions = command.permissions)
      (runs : command.run entry databases = some (next, response))
      (reply : execution.reply = response.bytes) : Takes config execution databases next
  | selected {name : Bytes} {database : D} {databases next : σ}
      (selects : execution.transaction.command = .select)
      (args : execution.transaction.args = [name])
      (opened : openDatabase config databases name = some (next, database))
      (reply : execution.reply = respOk) : Takes config execution databases next
  /-- A command on the session, or one that failed. -/
  | kept {databases : σ}
      (keyed : ∀ command, execution.transaction.command = .data command →
        execution.reply = noPermissions)
      (selects : execution.transaction.command = .select → execution.reply ≠ respOk) :
      Takes config execution databases databases

section Commands

variable {config : Config σ D K} {state next : State σ D K threads} {entry : Entry D}
  {response : Response}

theorem Replies.trace {client : Option Nat} {result : State σ D K threads × Response}
    (replies : Replies client state result) : result.1.trace = state.trace := by
  rw [replies.eq]

/-- SELECT opens the database that it is asked for, or says that it did not. -/
theorem runSelect_databases (returned : runSelect config state entry = some (next, response)) :
    (∃ name database, entry.args = [name] ∧
      openDatabase config state.databases name = some (next.databases, database) ∧
      response.bytes = respOk) ∨
    next.databases = state.databases ∧ response.bytes ≠ respOk := by
  rcases passNoClient_cases returned with ⟨_, same⟩ | ⟨slot, _, returned⟩
  · cases same
    exact .inr ⟨rfl, by decide⟩
  · simp only at returned
    split at returned
    · next name args =>
        split at returned
        · cases returned
          exact .inr ⟨rfl, by decide⟩
        · next databases database opened =>
            cases returned
            exact .inl ⟨name, database, args, opened, rfl⟩
    · cases returned
      exact .inr ⟨rfl, by decide⟩

/-- A command on keys is run on the databases as they are. -/
theorem runData_databases {command : DataCommand σ D} {held : Permissions}
    (holds : state.passwords.permissions entry.password = some held)
    (returned : runData state entry command = some (next, response)) :
    ∃ answer, command.run ⟨entry.client.map fun slot => (state.clients slot).protover, entry.args,
        entry.database, held⟩ state.databases = some (next.databases, answer) ∧
      response.bytes = answer.bytes := by
  obtain ⟨permissions, has, returned⟩ := Option.bind_eq_some_iff.mp returned
  cases holds.symm.trans has
  obtain ⟨⟨databases, answer⟩, ran, returned⟩ := Option.bind_eq_some_iff.mp returned
  refine ⟨answer, ?_⟩
  simp only at returned
  split at returned
  · obtain ⟨slot, _, returned⟩ := Option.bind_eq_some_iff.mp returned
    unfold bufferedReply at returned
    split at returned
    · cases returned
      exact ⟨ran, rfl⟩
    · cases returned
  · cases returned
    exact ⟨ran, rfl⟩

end Commands

/-! ## One transaction -/

/-- A command is executed behind its acceptance. -/
def Justified (before : List (Event σ D)) (event : Event σ D) : Prop :=
  ∀ execution, event.execution = some execution → .accepted execution.transaction ∈ before

/-- The databases and the trace so far: the executed commands lead to the databases, each behind
its acceptance. -/
structure Ordered (config : Config σ D K) (initial : σ) (state : State σ D K threads) : Prop where
  replayed : Replays (Takes config) initial state.executions state.databases
  grounded : Grounded Justified state.trace

section Transactions

variable {config : Config σ D K} {initial : σ} {state next : State σ D K threads}
  {client : Option Nat} {password : Nat} {transaction : Transaction σ D} {block : Option Tag}
  {response : Response}

theorem grounded_silent {trace events : List (Event σ D)} (grounded : Grounded Justified trace)
    (silent : events.filterMap Event.execution = []) : Grounded Justified (trace ++ events) := by
  apply grounded.append
  intro before event member _ execution executed
  have none := List.filterMap_eq_nil_iff.mp silent event member
  rw [none] at executed
  cases executed

/-- Events of another kind change nothing. -/
theorem Ordered.keep (ordered : Ordered config initial state) {events : List (Event σ D)}
    (databases : next.databases = state.databases) (trace : next.trace = state.trace ++ events)
    (silent : events.filterMap Event.execution = []) : Ordered config initial next where
  replayed := by
    rw [State.executions, trace, List.filterMap_append, silent, List.append_nil, databases]
    exact ordered.replayed
  grounded := by
    rw [trace]
    exact grounded_silent ordered.grounded silent

theorem Ordered.congr (ordered : Ordered config initial state)
    (databases : next.databases = state.databases) (trace : next.trace = state.trace) :
    Ordered config initial next :=
  ordered.keep databases (trace.trans (List.append_nil _).symm) rfl

variable [DecidableEq K]

/-- Before it is recorded a command records no more than what it did to a block. -/
theorem runOn_trace {command : Command σ D} {entry : Entry D}
    (returned : command.runOn config state entry = some (next, response)) :
    ∃ events, next.trace = state.trace ++ events ∧ events.filterMap Event.execution = [] := by
  obtain ⟨done, does, replies⟩ := runOn_cases returned
  have same : next.trace = done.trace := replies.trace
  rw [same]
  rcases does with ⟨_, manages⟩ | ⟨_, ordinary⟩
  · obtain ⟨events, trace, managing⟩ := manages.trace
    refine ⟨events, trace, List.filterMap_eq_nil_iff.mpr fun event member => ?_⟩
    cases managing event member <;> rfl
  · exact ⟨[], ordinary.trace.trans (List.append_nil _).symm, rfl⟩

/-- A transaction takes its turn at the point at which it is recorded with its reply. -/
theorem executeTransaction_takes
    (executed : executeTransaction config state client password transaction block =
      some (next, response)) :
    ∃ reply events, Takes config ⟨transaction, password, client.isSome, block, reply⟩
        state.databases next.databases ∧
      next.trace = state.trace ++ events ++
        [.executed ⟨transaction, password, client.isSome, block, reply⟩] ∧
      events.filterMap Event.execution = [] := by
  obtain ⟨held, holds, executed⟩ := Option.bind_eq_some_iff.mp executed
  split at executed
  · obtain ⟨slot, rfl, executed⟩ := Option.bind_eq_some_iff.mp executed
    cases executed
    have denied : Takes config ⟨transaction, password, (some slot).isSome, block, noPermissions⟩
        state.databases state.databases :=
      .kept (fun _ _ => rfl) fun _ => (by decide : noPermissions ≠ respOk)
    rw [writeMessage, writeToSocket_eq]
    refine ⟨noPermissions, _, denied, rfl, ?_⟩
    cases (state.clients slot).id <;> rfl
  · next granted =>
      obtain ⟨⟨after, returned⟩, ran, executed⟩ := Option.bind_eq_some_iff.mp executed
      cases executed
      obtain ⟨events, trace, silent⟩ := runOn_trace ran
      refine ⟨response.bytes, events, ?_, by rw [State.record, trace], silent⟩
      show Takes config _ state.databases after.databases
      cases command : transaction.command with
      | data data =>
          rw [command] at ran granted
          obtain ⟨answer, runs, reply⟩ := runData_databases holds ran
          refine .ran command rfl rfl ?_ (not_not.mp granted) runs reply
          exact Option.isSome_map
      | select =>
          rw [command] at ran
          rcases runSelect_databases ran with ⟨name, database, args, opened, reply⟩ | ⟨same, other⟩
          · exact .selected command args opened reply
          · rw [same]
            refine .kept (fun data keyed => ?_) fun _ => other
            rw [command] at keyed
            cases keyed
      | _ =>
          have same : Keeps state after := by
            rw [command] at ran
            refine keeps_of_ensures (runOn_keyless_keeps (fun data keyed => ?_) fun selects => ?_) ran
            · cases keyed
            · cases selects
          rw [show after.databases = state.databases from same]
          refine .kept (fun data keyed => ?_) fun selects => ?_
          · rw [command] at keyed
            cases keyed
          · rw [command] at selects
            cases selects

/-- A transaction that was accepted takes its turn. -/
theorem Ordered.executeTransaction (ordered : Ordered config initial state)
    (accepted : .accepted transaction ∈ state.trace)
    (executed : executeTransaction config state client password transaction block =
      some (next, response)) :
    Ordered config initial next ∧ state.trace <+: next.trace := by
  obtain ⟨reply, events, takes, trace, silent⟩ := executeTransaction_takes executed
  have longer : state.trace <+: next.trace := by
    rw [trace, List.append_assoc]
    exact List.prefix_append _ _
  have executions : next.executions =
      state.executions ++ [⟨transaction, password, client.isSome, block, reply⟩] := by
    rw [State.executions, trace, List.filterMap_append, List.filterMap_append, silent,
      List.append_nil]
    rfl
  refine ⟨⟨?_, ?_⟩, longer⟩
  · rw [executions]
    exact ordered.replayed.snoc takes
  · rw [trace]
    apply (grounded_silent ordered.grounded silent).snoc
    intro execution same
    cases same
    exact List.mem_append_left _ accepted

/-- The commands of a block that were accepted take their turns. -/
theorem Ordered.executeBlock {block : TransactionBlock σ D} (ordered : Ordered config initial state)
    (accepted : ∀ transaction ∈ block.transactions, .accepted transaction ∈ state.trace)
    (executed : executeTransactionBlock config state block = some next) :
    Ordered config initial next := by
  obtain ⟨after, writeBufs, ⟨kept, _⟩, ended⟩ := executeTransactionBlock_induction
    (fun after => Ordered config initial after ∧ state.trace <+: after.trace)
    ⟨ordered, List.prefix_refl _⟩
    (fun transaction member _ _ _ _ _ _ before ran =>
      have turn := before.1.executeTransaction (before.2.subset (accepted transaction member)) ran
      ⟨turn.1, before.2.trans turn.2⟩) executed
  rcases ended with rfl | ⟨_, toWrite, produced, rfl⟩ <;> exact kept.congr rfl rfl

end Transactions

/-! ## Each command once -/

/-- The commands that were executed, and those that will be, in that order. -/
def State.turns (state : State σ D K threads) : List (Transaction σ D) :=
  state.executions.map Execution.transaction ++
    state.pending.flatMap TransactionBlock.transactions

/-- The commands that wait for the EXEC of the client in the slot. -/
def State.waitingAt (state : State σ D K threads) (slot : Nat) : List (Transaction σ D) :=
  if (state.clients slot).id.isSome then
    (state.clients slot).waitingBlock.elim [] fun block => block.transactions.map Subtype.val
  else []

/-- The commands that had or will have a turn and those that wait are different ones of those
that were accepted. -/
structure Once (state : State σ D K threads) : Prop where
  numbered : ∀ transaction ∈ state.acceptances,
    transaction.tag.sequence < state.sent transaction.tag.origin
  calls : (state.acceptances.map Transaction.tag).Nodup
  kept : ∀ slots : List Nat, slots.Nodup →
    (state.turns ++ slots.flatMap state.waitingAt).Subperm state.acceptances

section Counting

variable {state next : State σ D K threads}

/-- What waits in one slot, and in the other slots. -/
theorem perm_flatMap_erase {waiting before : Nat → List (Transaction σ D)} {slot : Nat}
    {slots : List Nat} (distinct : slots.Nodup)
    (elsewhere : ∀ other, other ≠ slot → waiting other = before other) :
    (slots.flatMap waiting).Perm
      ((if slot ∈ slots then waiting slot else []) ++ (slots.erase slot).flatMap before) := by
  have others : (slots.erase slot).flatMap waiting = (slots.erase slot).flatMap before :=
    List.flatMap_congr fun other member => elsewhere other (distinct.mem_erase_iff.mp member).1
  rw [← others]
  split
  · next inside => exact (List.perm_cons_erase inside).flatMap_right waiting
  · next outside => rw [List.erase_of_not_mem outside, List.nil_append]

/-- Nothing is accepted, and blocks may only go. -/
theorem Once.shrink (once : Once state) (turns : next.turns = state.turns)
    (waiting : ∀ slot, next.waitingAt slot = state.waitingAt slot ∨ next.waitingAt slot = [])
    (acceptances : next.acceptances = state.acceptances)
    (sent : ∀ origin, state.sent origin ≤ next.sent origin) : Once next := by
  refine ⟨?_, ?_, ?_⟩
  · intro transaction member
    rw [acceptances] at member
    exact Nat.lt_of_lt_of_le (once.numbered transaction member) (sent _)
  · rw [acceptances]
    exact once.calls
  · intro slots distinct
    rw [turns, acceptances]
    have fewer : (slots.flatMap next.waitingAt).Sublist (slots.flatMap state.waitingAt) := by
      apply List.Sublist.flatMap_right
      intro slot _
      rcases waiting slot with same | none
      · rw [same]
      · rw [none]
        exact List.nil_sublist _
    exact (fewer.append_left _).subperm.trans (once.kept slots distinct)

/-- A block of the transaction queue comes out of the slot it waited in. -/
theorem Once.commit (once : Once state) {slot : Nat}
    (turns : next.turns = state.turns ++ state.waitingAt slot) (gone : next.waitingAt slot = [])
    (waiting : ∀ other, other ≠ slot → next.waitingAt other = state.waitingAt other)
    (acceptances : next.acceptances = state.acceptances)
    (sent : next.sent = state.sent) : Once next := by
  refine ⟨?_, ?_, ?_⟩
  · rw [acceptances, sent]
    exact once.numbered
  · rw [acceptances]
    exact once.calls
  · intro slots distinct
    have rest := perm_flatMap_erase distinct waiting
    rw [gone, ite_self, List.nil_append] at rest
    rw [turns, acceptances, List.append_assoc]
    have apart : (slot :: slots.erase slot).Nodup :=
      List.nodup_cons.mpr ⟨distinct.not_mem_erase, distinct.erase slot⟩
    exact ((rest.append_left _).append_left _).subperm.trans (once.kept _ apart)

/-- A command that is accepted has a number of its own, and gets a turn or waits in one slot. -/
theorem Once.accept (once : Once state) {transaction : Transaction σ D}
    (number : transaction.tag.sequence = state.sent transaction.tag.origin)
    (sent : next.sent = Function.update state.sent transaction.tag.origin
      (state.sent transaction.tag.origin + 1))
    (acceptances : next.acceptances = state.acceptances ++ [transaction])
    (joins : ∀ slots : List Nat, slots.Nodup → (next.turns ++ slots.flatMap next.waitingAt).Subperm
      (state.turns ++ transaction :: slots.flatMap state.waitingAt)) : Once next := by
  refine ⟨?_, ?_, ?_⟩
  · intro other member
    rw [sent, Function.update_apply]
    rw [acceptances] at member
    rcases List.mem_append.mp member with before | new
    · have less := once.numbered other before
      split
      · next same =>
          rw [same] at less
          exact Nat.lt_succ_of_lt less
      · exact less
    · rw [List.mem_singleton.mp new, if_pos rfl, number]
      exact Nat.lt_succ_self _
  · rw [acceptances, List.map_append]
    apply List.Nodup.append once.calls (List.nodup_singleton _)
    apply List.disjoint_singleton.mpr
    intro member
    obtain ⟨other, before, same⟩ := List.mem_map.mp member
    have less := once.numbered other before
    rw [same, ← number] at less
    exact Nat.lt_irrefl _ less
  · intro slots distinct
    rw [acceptances]
    have all := (List.subperm_cons transaction).mpr (once.kept slots distinct)
    have joined := (joins slots distinct).trans (List.perm_middle.subperm.trans all)
    exact joined.trans (List.perm_append_singleton _ _).symm.subperm

theorem waitingAt_occupied {slot : Nat} {block : WaitingBlock σ D}
    (occupied : ∃ id, (state.clients slot).id = some id)
    (waits : (state.clients slot).waitingBlock = some block) :
    state.waitingAt slot = block.transactions.map Subtype.val := by
  obtain ⟨id, occupied⟩ := occupied
  simp [State.waitingAt, occupied, waits]

theorem waitingAt_nil {slot : Nat} (waits : (state.clients slot).waitingBlock = none) :
    state.waitingAt slot = [] := by
  simp [State.waitingAt, waits]

theorem Quiet.waitingAt (quiet : Quiet state next) (slot : Nat) :
    next.waitingAt slot = state.waitingAt slot ∨ next.waitingAt slot = [] := by
  have vacant : (next.clients slot).id = none → next.waitingAt slot = [] := by
    intro gone
    simp [State.waitingAt, gone]
  rcases quiet.id slot with same | gone
  · rcases quiet.waitingBlock slot with kept | gone
    · refine .inl ?_
      rw [State.waitingAt, same, kept, State.waitingAt]
    · exact .inr (vacant gone)
  · exact .inr (vacant gone)

theorem Once.quiet (once : Once state) (quiet : Quiet state next)
    (turns : next.turns = state.turns) : Once next :=
  once.shrink turns quiet.waitingAt quiet.acceptances quiet.sent

/-- The waiting block of another slot is left alone. -/
theorem waitingAt_setWaitingBlock {slot : Nat} {block : Option (WaitingBlock σ D)}
    (clients : next.clients = (state.setWaitingBlock slot block).clients) {other : Nat}
    (different : other ≠ slot) : next.waitingAt other = state.waitingAt other := by
  rw [State.waitingAt, clients, clients_setWaitingBlock, if_neg different, State.waitingAt]

/-- A block that is executed gives its turns to its commands. -/
theorem Once.run (once : Once state) {block : TransactionBlock σ D}
    (held : state.txThread = .popped block) (ran : BlockRun block state next) : Once next := by
  -- the executed commands were the first ones that were pending
  have turned : ∀ {executions : List (Execution σ D)} {queue : List (TransactionBlock σ D)},
      next.executions = state.executions ++ executions →
      executions.map Execution.transaction = block.transactions →
      next.pending = state.txQueue ++ queue →
      next.turns = state.turns ++ queue.flatMap TransactionBlock.transactions := by
    intro executions queue new same pending
    rw [State.turns, State.turns, new, pending, pending_popped held, List.map_append, same,
      List.flatMap_append, List.flatMap_cons]
    simp only [List.append_assoc]
  cases ran with
  | direct transaction reply data quiet pending executions =>
      apply once.quiet quiet
      have same := turned executions (by rw [TransactionBlock.transactions, data]; rfl)
        (pending.trans (List.append_nil _).symm)
      rw [same, List.flatMap_nil, List.append_nil]
  | multiple exec transactions new data quiet pending executions same under =>
      apply once.quiet quiet
      have same := turned executions (by rw [same, TransactionBlock.transactions, data])
        (pending.trans (List.append_nil _).symm)
      rw [same, List.flatMap_nil, List.append_nil]
  | managed transaction reply boundary before after new data connected moves waiting clients last
      sent pending acceptances boundaries executions =>
      have turns := turned executions (by rw [TransactionBlock.transactions, data]; rfl) pending
      have elsewhere : ∀ other, other ≠ block.client →
          next.waitingAt other = state.waitingAt other := by
        intro other different
        exact waitingAt_setWaitingBlock clients different
      have here : next.waitingAt block.client = after.elim [] fun waiting =>
          if (next.clients block.client).id.isSome then
            waiting.transactions.map Subtype.val else [] := by
        have becomes : (next.clients block.client).waitingBlock = after := by
          rw [clients, clients_setWaitingBlock, if_pos rfl]
        rw [State.waitingAt, becomes]
        cases after with
        | none => simp
        | some waiting => rfl
      have shrinks : new = [] → next.waitingAt block.client = [] → Once next := by
        intro none gone
        rw [none, List.flatMap_nil, List.append_nil] at turns
        refine once.shrink turns (fun other => ?_) acceptances (fun _ => by rw [sent])
        by_cases same : other = block.client
        · exact .inr (same ▸ gone)
        · exact .inl (elsewhere other same)
      generalize transaction.command = command at moves
      cases moves with
      | opened =>
          apply shrinks rfl
          rw [here]
          simp
      | discarded waiting => exact shrinks rfl here
      | committed waitingBlock =>
          refine once.commit ?_ here elsewhere acceptances sent
          rw [turns, waitingAt_occupied (connectedClient_eq_some connected).2 waiting]
          simp [TransactionBlock.transactions]

variable [NeZero threads] [DecidableEq K] {config : Config σ D K}

theorem Once.step {action : Action σ D threads} (once : Once state)
    (stepped : step config state action = some next) : Once next := by
  cases step_advance stepped with
  | quiet _ _ quiet pending executions =>
      apply once.quiet quiet
      rw [State.turns, executions, pending, State.turns]
  | connected slot admitted available =>
      refine once.shrink rfl (fun other => ?_) rfl (fun _ => Nat.le_refl _)
      by_cases same : other = slot
      · refine .inr (waitingAt_nil ?_)
        simp [same, newClient]
      · simp [State.waitingAt, Function.update_of_ne same]
  | queued thread command args slot origin waiting transaction _ activity occupied unlocked waits
      made clients last sent pending acceptances boundaries executions =>
      have tag : transaction.val.tag = ⟨origin, state.sent origin⟩ := by rw [made]; rfl
      have turns : next.turns = state.turns := by
        rw [State.turns, executions, pending, State.turns]
      have joins : next.waitingAt slot = state.waitingAt slot ++ [transaction.val] := by
        rw [waitingAt_occupied occupied waits]
        have kept : ∃ id, (next.clients slot).id = some id := by
          rw [clients, id_setWaitingBlock]
          exact occupied
        have becomes : (next.clients slot).waitingBlock =
            some { waiting with transactions := waiting.transactions ++ [transaction] } := by
          rw [clients, clients_setWaitingBlock, if_pos rfl]
        rw [waitingAt_occupied kept becomes, List.map_append, List.map_singleton]
      have elsewhere : ∀ other, other ≠ slot → next.waitingAt other = state.waitingAt other := by
        intro other different
        exact waitingAt_setWaitingBlock clients different
      refine once.accept (by rw [tag]) (by rw [sent, tag]) acceptances fun slots distinct => ?_
      have after := perm_flatMap_erase distinct elsewhere
      have before := perm_flatMap_erase distinct fun other (_ : other ≠ slot) =>
        (rfl : state.waitingAt other = state.waitingAt other)
      rw [turns, List.subperm_append_left]
      split at before
      · next inside =>
          rw [if_pos inside, joins, List.append_assoc] at after
          exact (after.trans (List.perm_middle.trans (before.symm.cons _))).subperm
      · next outside =>
          rw [if_neg outside] at after
          exact (after.trans before.symm).subperm.cons_right _
  | enqueued thread command args slot origin transaction _ activity occupied unlocked direct made
      clients last sent pending acceptances boundaries executions =>
      have tag : transaction.tag = ⟨origin, state.sent origin⟩ := by rw [made]; rfl
      have turns : next.turns = state.turns ++ [transaction] := by
        rw [State.turns, executions, pending, State.turns, List.flatMap_append]
        simp [TransactionBlock.transactions]
      have waiting : next.waitingAt = state.waitingAt := by
        funext other
        rw [State.waitingAt, clients, State.waitingAt]
      refine once.accept (by rw [tag]) (by rw [sent, tag]) acceptances fun slots _ => ?_
      rw [turns, waiting, List.append_assoc, List.singleton_append]
  | ran block _ held run => exact once.run held run

omit [NeZero threads] [DecidableEq K] in
theorem once_start (config : Config σ D K) (databases : σ) (loaded : List (Password K)) :
    Once (start config databases loaded : State σ D K threads) := by
  refine ⟨by simp [State.acceptances, start], List.nodup_nil, fun slots _ => ?_⟩
  have idle : slots.flatMap (start config databases loaded : State σ D K threads).waitingAt = [] :=
    List.flatMap_eq_nil_iff.mpr fun _ _ => rfl
  rw [idle]
  exact List.Subperm.refl _

omit [NeZero threads] [DecidableEq K] in
theorem mem_acceptances {transaction : Transaction σ D}
    (member : transaction ∈ state.acceptances) : .accepted transaction ∈ state.trace := by
  obtain ⟨event, inside, same⟩ := List.mem_filterMap.mp member
  cases event with
  | accepted other =>
      cases same
      exact inside
  | _ => cases same

omit [NeZero threads] [DecidableEq K] in
/-- What is pending was accepted. -/
theorem Once.pending (once : Once state) {block : TransactionBlock σ D}
    (member : block ∈ state.pending) {transaction : Transaction σ D}
    (inside : transaction ∈ block.transactions) : .accepted transaction ∈ state.trace := by
  apply mem_acceptances
  apply (once.kept [] List.nodup_nil).subset
  apply List.mem_append_left
  exact List.mem_append_right _ (List.mem_flatMap.mpr ⟨block, member, inside⟩)

end Counting

/-! ## One step -/

section Steps

variable {config : Config σ D K} {initial : σ} {state next : State σ D K threads}

variable [NeZero threads]

theorem Ordered.addIoRequest (ordered : Ordered config initial state) (slot origin : Nat)
    (type : IoOpType) : Ordered config initial (addIoRequest state slot origin type) := by
  rw [addIoRequest_eq]
  exact ordered.congr rfl rfl

variable [DecidableEq K]

theorem Ordered.step {action : Action σ D threads} (ordered : Ordered config initial state)
    (once : Once state) (stepped : step config state action = some next) :
    Ordered config initial next := by
  cases step_stepped stepped with
  | rejected => exact ordered
  | connected | popped | dropped | reading | unanswered | ended | blockPopped =>
      exact ordered.congr rfl rfl
  | event | unknown | streamEnded | responded =>
      apply Ordered.addIoRequest
      exact ordered.congr rfl rfl
  | terminated | wrote | locked | limited | queued | enqueued | answered =>
      exact ordered.keep rfl rfl rfl
  | executed block next held ran =>
      exact ordered.executeBlock (fun _ inside => once.pending (held_block held) inside) ran

omit [NeZero threads] [DecidableEq K] in
theorem ordered_start (config : Config σ D K) (databases : σ) (loaded : List (Password K)) :
    Ordered config databases (start config databases loaded : State σ D K threads) :=
  ⟨.begun, grounded_nil⟩

end Steps

/-! ## Every run -/

/-- The number of the command that the event accepts. -/
def Event.called (event : Event σ D) : Option Tag := event.acceptance.map Transaction.tag

/-- The number of the command that takes effect at the event. -/
def Event.effective (event : Event σ D) : Option Tag :=
  event.execution.map fun execution => execution.transaction.tag

theorem acceptances_tags (trace : List (Event σ D)) :
    trace.filterMap Event.called = (trace.filterMap Event.acceptance).map Transaction.tag :=
  List.map_filterMap.symm

theorem executions_tags (trace : List (Event σ D)) : trace.filterMap Event.effective =
    (trace.filterMap Event.execution).map fun execution => execution.transaction.tag :=
  List.map_filterMap.symm

/-- What is executed was called. -/
theorem Justified.called {before : List (Event σ D)} {event : Event σ D} {tag : Tag}
    (justified : Justified before event) (effect : event.effective = some tag) :
    tag ∈ before.filterMap Event.called := by
  obtain ⟨execution, executed, rfl⟩ := Option.map_eq_some_iff.mp effect
  exact List.mem_filterMap.mpr ⟨_, justified execution executed, rfl⟩

/-- The tags of the executed commands are those of commands that had a turn. -/
theorem Once.executions {state : State σ D K threads} (once : Once state) :
    (state.trace.filterMap Event.effective).Nodup := by
  obtain ⟨chosen, same, part⟩ := once.kept [] List.nodup_nil
  have distinct := (same.map Transaction.tag).nodup (once.calls.sublist (part.map _))
  rw [executions_tags]
  rw [State.turns, List.append_assoc, List.map_append, List.map_map] at distinct
  exact (List.nodup_append.mp distinct).1

section Runs

variable [NeZero threads] [DecidableEq K]

/-- In every run the databases are what the executed commands make of the first ones, one after
the other, each with the reply it has at its turn. Each command takes effect at most once, behind
its acceptance; and a command that is accepted after another took effect takes effect after it. -/
theorem commands_serialize (config : Config σ D K) (databases : σ) (loaded : List (Password K))
    (actions : List (Action σ D threads)) (final : State σ D K threads)
    (ran : Transition.run (step config) (start config databases loaded) actions = some final) :
    Replays (Takes config) databases (final.trace.filterMap Event.execution) final.databases ∧
    (final.trace.filterMap Event.effective).Nodup ∧
    Grounded Justified final.trace ∧
    ∀ before after tag, final.trace = before ++ after → tag ∈ after.filterMap Event.called →
      tag ∉ before.filterMap Event.effective := by
  have preserved : ∀ (state : State σ D K threads) action next,
      Once state ∧ Ordered config databases state → step config state action = some next →
      Once next ∧ Ordered config databases next := by
    intro state action next kept stepped
    exact ⟨kept.1.step stepped, kept.2.step kept.1 stepped⟩
  obtain ⟨once, ordered⟩ := Transition.run_invariant preserved
    ⟨once_start config databases loaded, ordered_start config databases loaded⟩ ran
  refine ⟨ordered.replayed, once.executions, ordered.grounded, ?_⟩
  intro before after tag whole later
  have calls : (final.trace.filterMap Event.called).Nodup := by
    rw [acceptances_tags]
    exact once.calls
  exact ordered.grounded.not_before (fun _ _ _ justified => justified.called) calls whole later

end Runs

/-- Two commands of one client, each answered. -/
theorem commands_serialize_echoes : ∃ final,
    Transition.run (step sampleConfig) (start sampleConfig () []) answeredEchoes = some final ∧
    Replays (Takes sampleConfig) () (final.trace.filterMap Event.execution) final.databases ∧
    (final.trace.filterMap Event.effective).Nodup ∧
    Grounded Justified final.trace ∧
    ∀ before after tag, final.trace = before ++ after → tag ∈ after.filterMap Event.called →
      tag ∉ before.filterMap Event.effective := by
  have finished : (Transition.run (step sampleConfig) (start sampleConfig () [])
    answeredEchoes).isSome = true := by decide
  obtain ⟨final, ran⟩ := Option.isSome_iff_exists.mp finished
  exact ⟨final, ran, commands_serialize sampleConfig () [] answeredEchoes final ran⟩

end TellyDB.Server
