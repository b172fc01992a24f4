import TellyDB.Server.Frame

/-!
Owns what keeps connections apart: while no slot of the client table is given to
a new connection before everything that refers to the slot is gone, and events
come from the connection that has the slot, a block, an operation or a thread
that refers to a slot finds there its own connection or none.
-/

namespace TellyDB.Server

open Resp Lib

variable {σ D K : Type} {threads : Nat}

/-! ## The condition -/

/-- The slot and the connection an I/O thread reads commands of. -/
def IoActivity.reads : IoActivity → Option (Nat × Nat)
  | .reading slot origin => some (slot, origin)
  | .added slot tag _ => some (slot, tag.origin)
  | _ => none

/-- The slot and the connection the transaction thread is about to answer. -/
def TxActivity.responds : TxActivity σ D → Option (Nat × Nat)
  | .responding slot tag _ _ => some (slot, tag.origin)
  | _ => none

/-- Some block, operation or thread refers to the slot. -/
def State.refersToSlot (state : State σ D K threads) (slot : Nat) : Bool :=
  state.pending.any (fun block => block.client == slot) ||
    state.txThread.responds.any (fun reference => reference.1 == slot) ||
    (List.finRange threads).any fun thread =>
      (state.ioThreads thread).operations.any (fun operation => operation.client == slot) ||
        (state.ioThreads thread).activity.reads.any (fun reference => reference.1 == slot)

/-- The step gives a slot to a new connection although something refers to it, or
handles an event of a connection that does not have the slot any more. -/
def reusesSlot (config : Config σ D K) (state : State σ D K threads) :
    Action σ D threads → Bool
  | .accept =>
      !acceptRefused config state &&
        (getAvailableClientSlot config.maxClients state.clients
          state.lastConnectionClientId).any state.refersToSlot
  | .event slot origin _ => (state.clients slot).id.any fun id => id != origin
  | _ => false

/-! ## The invariant -/

/-- A reference made for the connection `origin` finds it in the slot, or nobody. -/
def Homed (state : State σ D K threads) (origin slot : Nat) : Prop :=
  origin < state.lastConnectionClientId ∧
    ((state.clients slot).id = none ∨ (state.clients slot).id = some origin)

/-- All transactions of the block were sent by the connection it answers. -/
def TransactionBlock.OfOneClient (block : TransactionBlock σ D) : Prop :=
  match block.data with
  | .direct _ => True
  | .multiple exec transactions =>
      ∀ transaction ∈ transactions, transaction.val.tag.origin = exec.origin

structure Attached [NeZero threads] (state : State σ D K threads) : Prop where
  known : ∀ slot id, (state.clients slot).id = some id → id < state.lastConnectionClientId
  unique : ∀ slot other id, (state.clients slot).id = some id →
    (state.clients other).id = some id → slot = other
  blocks : ∀ block ∈ state.pending,
    Homed state block.tag.origin block.client ∧ block.OfOneClient
  responding : ∀ slot origin, state.txThread.responds = some (slot, origin) →
    Homed state origin slot
  operations : ∀ thread, ∀ operation ∈ (state.ioThreads thread).operations,
    Homed state operation.origin operation.client ∧
      thread = Fin.ofNat threads operation.origin
  readers : ∀ thread slot origin, (state.ioThreads thread).activity.reads = some (slot, origin) →
    Homed state origin slot ∧ thread = Fin.ofNat threads origin
  waiting : ∀ slot id block, (state.clients slot).id = some id →
    (state.clients slot).waitingBlock = some block →
    ∀ transaction ∈ block.transactions, transaction.val.tag.origin = id

section Rules

variable {state next : State σ D K threads} {origin slot : Nat}

theorem Homed.occupant {id : Nat} (homed : Homed state origin slot)
    (occupied : (state.clients slot).id = some id) : id = origin := by
  rcases homed.2 with gone | home
  · rw [occupied] at gone
    cases gone
  · rw [occupied, Option.some.injEq] at home
    exact home

theorem Homed.of_occupied [NeZero threads] (attached : Attached state)
    (occupied : (state.clients slot).id = some origin) : Homed state origin slot :=
  ⟨attached.known slot origin occupied, .inr occupied⟩

/-- Clients only go, so references stay at home. -/
theorem Homed.mono (homed : Homed state origin slot)
    (last : next.lastConnectionClientId = state.lastConnectionClientId)
    (id : ∀ slot, (next.clients slot).id = (state.clients slot).id ∨
      (next.clients slot).id = none) : Homed next origin slot := by
  refine ⟨by rw [last]; exact homed.1, ?_⟩
  rcases id slot with same | gone
  · rw [same]
    exact homed.2
  · exact .inl gone

variable [NeZero threads]

/-- A change in which clients only go and nothing new refers to a slot. -/
theorem Attached.change (attached : Attached state)
    (last : next.lastConnectionClientId = state.lastConnectionClientId)
    (id : ∀ slot, (next.clients slot).id = (state.clients slot).id ∨
      (next.clients slot).id = none)
    (blocks : ∀ block ∈ next.pending, block ∈ state.pending)
    (responding : ∀ reference, next.txThread.responds = some reference →
      state.txThread.responds = some reference)
    (operations : ∀ thread, ∀ operation ∈ (next.ioThreads thread).operations,
      operation ∈ (state.ioThreads thread).operations)
    (readers : ∀ thread reference, (next.ioThreads thread).activity.reads = some reference →
      (state.ioThreads thread).activity.reads = some reference)
    (waiting : ∀ slot, (next.clients slot).waitingBlock = (state.clients slot).waitingBlock ∨
      (next.clients slot).id = none) : Attached next := by
  have before : ∀ {slot id : Nat}, (next.clients slot).id = some id →
      (state.clients slot).id = some id := by
    intro slot occupant occupied
    rcases id slot with same | gone
    · rw [← same]
      exact occupied
    · rw [occupied] at gone
      cases gone
  refine ⟨?_, ?_, ?_, ?_, ?_, ?_, ?_⟩
  · intro slot occupant occupied
    rw [last]
    exact attached.known slot occupant (before occupied)
  · intro slot other occupant occupied same
    exact attached.unique slot other occupant (before occupied) (before same)
  · intro block member
    have held := attached.blocks block (blocks block member)
    exact ⟨held.1.mono last id, held.2⟩
  · intro slot origin responds
    exact (attached.responding slot origin (responding _ responds)).mono last id
  · intro thread operation member
    have held := attached.operations thread operation (operations thread operation member)
    exact ⟨held.1.mono last id, held.2⟩
  · intro thread slot origin reads
    have held := attached.readers thread slot origin (readers thread _ reads)
    exact ⟨held.1.mono last id, held.2⟩
  · intro slot occupant block occupied waits
    rcases waiting slot with same | gone
    · rw [same] at waits
      exact attached.waiting slot occupant block (before occupied) waits
    · rw [occupied] at gone
      cases gone

/-- A change of nothing that refers to slots. -/
theorem Attached.congr (attached : Attached state)
    (last : next.lastConnectionClientId = state.lastConnectionClientId)
    (clients : next.clients = state.clients) (txQueue : next.txQueue = state.txQueue)
    (txThread : next.txThread = state.txThread) (ioThreads : next.ioThreads = state.ioThreads) :
    Attached next := by
  refine attached.change last (fun slot => .inl (by rw [clients])) ?_ ?_ ?_ ?_
    (fun slot => .inl (by rw [clients]))
  · intro block member
    rw [State.pending, txQueue, txThread] at member
    exact member
  · rw [txThread]
    exact fun _ responds => responds
  · rw [ioThreads]
    exact fun _ _ member => member
  · rw [ioThreads]
    exact fun _ _ reads => reads

theorem Attached.ordinary {resets kills : Prop} {client : Option Nat}
    (attached : Attached state) (change : Ordinary resets kills client state next) :
    Attached next := by
  refine attached.change change.lastConnectionClientId
    (fun slot => (change.id slot).imp_right And.right) ?_ ?_ ?_ ?_ change.waiting
  · intro block member
    rw [State.pending, change.txQueue, change.txThread] at member
    exact member
  · rw [change.txThread]
    exact fun _ responds => responds
  · rw [change.ioThreads]
    exact fun _ _ member => member
  · rw [change.ioThreads]
    exact fun _ _ reads => reads

omit [NeZero threads] in
theorem reads_setActivity {thread other : Fin threads} {activity : IoActivity}
    {reference : Nat × Nat}
    (reads : ((state.setActivity thread activity).ioThreads other).activity.reads =
      some reference) :
    activity.reads = some reference ∧ other = thread ∨
      (state.ioThreads other).activity.reads = some reference := by
  simp only [State.setActivity, State.updateThread, Function.update_apply] at reads
  split at reads
  · next same => exact .inl ⟨reads, same⟩
  · exact .inr reads

/-- A thread turns to something that is no operation, at a slot where its
connection is at home. -/
theorem Attached.setActivity (attached : Attached state) {thread : Fin threads}
    {activity : IoActivity} (free : activity.held = [])
    (home : ∀ slot origin, activity.reads = some (slot, origin) →
      Homed state origin slot ∧ thread = Fin.ofNat threads origin) :
    Attached (state.setActivity thread activity) := by
  refine { attached with operations := ?_, readers := ?_ }
  · intro other operation member
    rw [State.setActivity, operations_updateThread] at member
    split at member
    · next same =>
        subst same
        rw [IoThread.operations, free, List.nil_append] at member
        exact attached.operations other operation (List.mem_append_right _ member)
    · exact attached.operations other operation member
  · intro other slot origin reads
    rcases reads_setActivity reads with ⟨new, same⟩ | before
    · rw [same]
      exact home slot origin new
    · exact attached.readers other slot origin before

theorem Attached.setIdle (attached : Attached state) {thread : Fin threads} :
    Attached (state.setActivity thread .idle) := by
  apply attached.setActivity rfl
  intro slot origin reads
  cases reads

/-- A request of the connection that has the slot. -/
theorem Attached.addIoRequest (attached : Attached state) {type : IoOpType}
    (home : ∀ id, (state.clients slot).id = some id → id = origin) :
    Attached (addIoRequest state slot origin type) := by
  rcases addIoRequest_cases state slot origin type with same | ⟨id, occupied, added⟩
  · rw [same]
    exact attached
  · have here := home id occupied
    subst here
    rw [added]
    refine { attached with operations := ?_, readers := ?_ }
    · intro thread operation member
      rw [operations_updateThread] at member
      split at member
      · next selected =>
          rw [operations_queue, ← selected] at member
          rcases List.mem_append.mp member with before | new
          · exact attached.operations thread operation before
          · rw [List.mem_singleton] at new
            subst new
            have home : Homed state id slot := Homed.of_occupied attached occupied
            exact ⟨home, selected⟩
      · exact attached.operations thread operation member
    · intro thread other origin reads
      simp only [State.updateThread, Function.update_apply] at reads
      split at reads
      · next selected =>
          rw [selected]
          exact attached.readers _ other origin reads
      · exact attached.readers thread other origin reads

/-- A block of the connection that has its slot. -/
theorem Attached.pushBlock (attached : Attached state) (block : TransactionBlock σ D)
    (home : Homed state block.tag.origin block.client) (ofOne : block.OfOneClient) :
    Attached { state with txQueue := state.txQueue ++ [block] } := by
  refine { attached with blocks := ?_ }
  intro other member
  rw [State.pending, ← List.append_assoc] at member
  rcases List.mem_append.mp member with before | new
  · exact attached.blocks other before
  · rw [List.mem_singleton] at new
    subst new
    exact ⟨home, ofOne⟩

theorem Attached.setWaitingBlock (attached : Attached state) (slot : Nat)
    (block : Option (WaitingBlock σ D))
    (ofOne : ∀ id waiting, (state.clients slot).id = some id → block = some waiting →
      ∀ transaction ∈ waiting.transactions, transaction.val.tag.origin = id) :
    Attached (state.setWaitingBlock slot block) := by
  have homed : ∀ origin other, Homed state origin other →
      Homed (state.setWaitingBlock slot block) origin other :=
    fun origin other home => home.mono rfl fun slot => .inl (id_setWaitingBlock slot)
  refine ⟨?_, ?_, ?_, ?_, ?_, ?_, ?_⟩
  · intro other occupant occupied
    rw [id_setWaitingBlock] at occupied
    exact attached.known other occupant occupied
  · intro one other occupant occupied same
    rw [id_setWaitingBlock] at occupied same
    exact attached.unique one other occupant occupied same
  · intro pending member
    exact (attached.blocks pending member).imp_left (homed _ _)
  · intro other origin responds
    exact homed _ _ (attached.responding other origin responds)
  · intro thread operation member
    exact (attached.operations thread operation member).imp_left (homed _ _)
  · intro thread other origin reads
    exact (attached.readers thread other origin reads).imp_left (homed _ _)
  · intro other occupant waiting occupied waits
    rw [id_setWaitingBlock] at occupied
    rw [clients_setWaitingBlock] at waits
    split at waits
    · next here =>
        rw [here] at occupied
        exact ofOne occupant waiting occupied waits
    · exact attached.waiting other occupant waiting occupied waits

omit [NeZero threads] in
theorem refersToSlot_eq_false (free : state.refersToSlot slot = false) :
    (∀ block ∈ state.pending, block.client ≠ slot) ∧
    (∀ origin, state.txThread.responds ≠ some (slot, origin)) ∧
    (∀ thread, ∀ operation ∈ (state.ioThreads thread).operations, operation.client ≠ slot) ∧
    ∀ thread origin, (state.ioThreads thread).activity.reads ≠ some (slot, origin) := by
  simp only [State.refersToSlot, Bool.or_eq_false_iff, List.any_eq_false, beq_iff_eq] at free
  rcases free with ⟨⟨blocks, responds⟩, others⟩
  refine ⟨blocks, ?_, ?_, ?_⟩
  · intro origin same
    rw [same] at responds
    simp at responds
  · intro thread operation member same
    apply others thread (List.mem_finRange thread)
    apply Bool.or_eq_true_iff.mpr
    exact .inl (List.any_eq_true.mpr ⟨operation, member, beq_iff_eq.mpr same⟩)
  · intro thread origin same
    apply others thread (List.mem_finRange thread)
    rw [same]
    simp

/-- A connection gets a slot nothing refers to. -/
theorem Attached.connect {config : Config σ D K} (attached : Attached state)
    (free : state.refersToSlot slot = false) :
    Attached { state with
      clients := Function.update state.clients slot
        (newClient config state.passwords state.lastConnectionClientId)
      clientCount := state.clientCount + 1
      lastConnectionClientId := state.lastConnectionClientId + 1 } := by
  rcases refersToSlot_eq_false free with ⟨blocks, responds, operations, reads⟩
  let next : State σ D K threads := { state with
    clients := Function.update state.clients slot
      (newClient config state.passwords state.lastConnectionClientId)
    clientCount := state.clientCount + 1
    lastConnectionClientId := state.lastConnectionClientId + 1 }
  have elsewhere : ∀ {other : Nat}, other ≠ slot → next.clients other = state.clients other :=
    fun different => Function.update_of_ne different _ _
  have here : next.clients slot =
      newClient config state.passwords state.lastConnectionClientId :=
    Function.update_self _ _ _
  have homed : ∀ {origin other : Nat}, other ≠ slot → Homed state origin other →
      Homed next origin other := by
    intro origin other different home
    refine ⟨Nat.lt_succ_of_lt home.1, ?_⟩
    rw [elsewhere different]
    exact home.2
  have new : ∀ {id : Nat}, (next.clients slot).id = some id →
      id = state.lastConnectionClientId := by
    intro id occupied
    rw [here] at occupied
    exact (Option.some.inj occupied).symm
  show Attached next
  refine ⟨?_, ?_, ?_, ?_, ?_, ?_, ?_⟩
  · intro other id occupied
    by_cases same : other = slot
    · rw [same] at occupied
      rw [new occupied]
      exact Nat.lt_succ_self _
    · rw [elsewhere same] at occupied
      exact Nat.lt_succ_of_lt (attached.known other id occupied)
  · intro one other id occupied again
    by_cases first : one = slot
    · by_cases second : other = slot
      · rw [first, second]
      · rw [elsewhere second] at again
        rw [first] at occupied
        have known := attached.known other id again
        rw [new occupied] at known
        exact absurd known (Nat.lt_irrefl _)
    · rw [elsewhere first] at occupied
      by_cases second : other = slot
      · rw [second] at again
        have known := attached.known one id occupied
        rw [new again] at known
        exact absurd known (Nat.lt_irrefl _)
      · rw [elsewhere second] at again
        exact attached.unique one other id occupied again
  · intro block member
    have held := attached.blocks block member
    exact ⟨homed (blocks block member) held.1, held.2⟩
  · intro other origin responding
    refine homed ?_ (attached.responding other origin responding)
    rintro rfl
    exact responds origin responding
  · intro thread operation member
    have held := attached.operations thread operation member
    exact ⟨homed (operations thread operation member) held.1, held.2⟩
  · intro thread other origin reading
    have held := attached.readers thread other origin reading
    refine ⟨homed ?_ held.1, held.2⟩
    rintro rfl
    exact reads thread origin reading
  · intro other id block occupied waits
    by_cases same : other = slot
    · rw [same, here] at waits
      cases waits
    · rw [elsewhere same] at occupied waits
      exact attached.waiting other id block occupied waits

end Rules

/-! ## One step -/

section Steps

variable [NeZero threads] {config : Config σ D K}
  {state next : State σ D K threads} {client : Option Nat} {password : Nat}
  {transaction : Transaction σ D} {exec : Option Tag}

omit [NeZero threads] in
theorem held_operation {thread : Fin threads} {operation : IoOperation}
    (held : (state.ioThreads thread).activity = .popped operation) :
    operation ∈ (state.ioThreads thread).operations := by
  rw [IoThread.operations, held]
  exact List.mem_cons_self

omit [NeZero threads] in
theorem held_block {block : TransactionBlock σ D} (held : state.txThread = .popped block) :
    block ∈ state.pending := by
  rw [State.pending, held]
  exact List.mem_cons_self

theorem Attached.turn (attached : Attached state)
    (own : transaction.command.waitingTx = true → ∀ slot, client = some slot →
      (state.clients slot).id = some transaction.tag.origin)
    (turn : Turn config client password transaction exec state next) : Attached next := by
  cases turn with
  | denied slot _ =>
      rw [writeMessage, writeToSocket_eq]
      exact attached.congr rfl rfl rfl rfl rfl
  | ordinary next managesNone change => exact attached.ordinary change
  | managed next managesOne change =>
      have occupied := own managesOne
      generalize transaction.command = command at change
      cases change with
      | refused => exact attached
      | opened slot connected closed =>
          have empty := attached.setWaitingBlock slot (some ⟨password, []⟩) (by
            intro id waiting _ same
            cases same
            intro transaction member
            cases member)
          exact empty.congr rfl rfl rfl rfl rfl
      | committed slot block connected waiting room =>
          have home := Homed.of_occupied attached (occupied slot connected)
          have queued := attached.pushBlock
            ⟨slot, block.password, .multiple transaction.tag block.transactions⟩ home
            (attached.waiting slot _ block (occupied slot connected) waiting)
          have left := queued.setWaitingBlock slot none fun _ _ _ same => by cases same
          exact left.congr rfl rfl rfl rfl rfl
      | discarded slot block connected waiting =>
          have left := attached.setWaitingBlock slot none fun _ _ _ same => by cases same
          exact left.congr rfl rfl rfl rfl rfl

theorem Attached.executeTransaction [DecidableEq K] {after : State σ D K threads} {response : Response}
    (attached : Attached state)
    (own : transaction.command.waitingTx = true → ∀ slot, client = some slot →
      (state.clients slot).id = some transaction.tag.origin)
    (executed : executeTransaction config state client password transaction exec =
      some (after, response)) : Attached after := by
  rcases executeTransaction_turn executed with ⟨next, writeBufs, reply, turn, rfl⟩
  exact (attached.turn own turn).congr rfl rfl rfl rfl rfl

/-- The popped block stays pending until it is executed. -/
theorem Attached.leaveBlock {after : State σ D K threads} {block : TransactionBlock σ D}
    (attached : Attached after) (writeBufs : Nat → Bytes)
    (held : after.txThread = .popped block)
    (ended : next = { after with txThread := .idle } ∨
      ∃ toWrite produced, next = { after with
        writeBufs := writeBufs
        txThread := .responding block.client block.tag toWrite produced }) : Attached next := by
  have queued : ∀ other ∈ after.txQueue, other ∈ after.pending :=
    fun other member => List.mem_append_right _ member
  rcases ended with rfl | ⟨toWrite, produced, rfl⟩
  · exact { attached with
      blocks := fun other member => attached.blocks other (queued other member)
      responding := nofun }
  · refine { attached with
      blocks := fun other member => attached.blocks other (queued other member)
      responding := ?_ }
    intro slot origin responds
    cases responds
    exact (attached.blocks block (held_block held)).1

theorem Attached.executeBlock [DecidableEq K] {block : TransactionBlock σ D}
    (attached : Attached state) (held : state.txThread = .popped block)
    (executed : executeTransactionBlock config state block = some next) : Attached next := by
  have home := (attached.blocks block (held_block held)).1
  have ran := executeTransactionBlock_induction
    (fun after => Attached after ∧ after.txThread = state.txThread) ⟨attached, rfl⟩ ?_ executed
  · rcases ran with ⟨after, writeBufs, kept, ended⟩
    exact kept.1.leaveBlock writeBufs (kept.2.trans held) (ended.imp_right And.right)
  · intro transaction member exec before after response _ alone kept ran
    refine ⟨kept.1.executeTransaction ?_ ran, ?_⟩
    · intro managesOne slot connected
      rcases connectedClient_eq_some connected with ⟨rfl, id, occupied⟩
      have tag : transaction.tag = block.tag :=
        TransactionBlock.tag_of_managing member managesOne
      rw [alone managesOne, occupied, home.occupant occupied, tag]
    · exact (executeTransaction_undisturbed ran).txThread.trans kept.2

theorem Attached.step [DecidableEq K] {action : Action σ D threads} (attached : Attached state)
    (kept : reusesSlot config state action = false)
    (stepped : step config state action = some next) : Attached next := by
  cases step_stepped stepped with
  | rejected => exact attached
  | connected slot admitted available =>
      simp only [reusesSlot, admitted, available, Bool.not_false, Bool.true_and,
        Option.any_some] at kept
      exact attached.connect kept
  | event slot origin closed =>
      apply attached.addIoRequest
      intro id occupied
      simp only [reusesSlot, occupied, Option.any_some, bne_eq_false_iff_eq] at kept
      exact kept
  | popped thread operation rest idle queue =>
      have same : IoThread.operations ⟨rest, .popped operation⟩ =
          (state.ioThreads thread).operations := by
        rw [IoThread.operations, IoThread.operations, idle, queue]
        rfl
      refine attached.change rfl (fun _ => .inl rfl) (fun _ member => member)
        (fun _ responds => responds) ?_ ?_ (fun _ => .inl rfl)
      · intro other held member
        rw [operations_updateThread] at member
        split at member
        · next here =>
            rw [same] at member
            rw [here]
            exact member
        · exact member
      · intro other reference reads
        simp only [State.updateThread, Function.update_apply] at reads
        split at reads
        · cases reads
        · exact reads
  | dropped thread operation held gone => exact attached.setIdle
  | terminated thread operation id found held occupied type same =>
      have removed : Attached { state.updateClient found Client.removed with
          clientCount := state.clientCount - 1 } :=
        attached.ordinary (removed_ordinary False none)
      exact removed.setIdle.congr rfl rfl rfl rfl rfl
  | reading thread operation id held occupied type =>
      have home := attached.operations thread operation (held_operation held)
      refine attached.setActivity rfl ?_
      intro slot origin reads
      cases reads
      rw [home.1.occupant occupied]
      exact home
  | wrote thread operation id sequence toWrite produced held occupied type =>
      exact attached.setIdle.congr rfl rfl rfl rfl rfl
  | locked thread input allocated slot origin id activity occupied =>
      exact attached.congr rfl rfl rfl rfl rfl
  | unknown thread name allocated slot origin id activity occupied =>
      have home := attached.readers thread slot origin (by rw [activity]; rfl)
      have counted : Attached (state.countCommand origin) :=
        attached.congr rfl rfl rfl rfl rfl
      apply counted.addIoRequest
      exact fun id occupied => home.1.occupant occupied
  | limited thread command args slot origin id activity occupied =>
      have counted : Attached (state.countCommand origin) :=
        attached.congr rfl rfl rfl rfl rfl
      exact counted.setIdle.congr rfl rfl rfl rfl rfl
  | queued thread command args slot origin id block activity occupied waiting managesNone =>
      have home := attached.readers thread slot origin (by rw [activity]; rfl)
      have counted : Attached (state.countCommand origin) :=
        attached.congr rfl rfl rfl rfl rfl
      refine Attached.setActivity ?_ rfl ?_
      · refine Attached.congr (counted.setWaitingBlock slot (some _) ?_) rfl rfl rfl rfl rfl
        intro occupant queued here same transaction member
        cases same
        rcases List.mem_append.mp member with before | new
        · exact attached.waiting slot occupant block here waiting transaction before
        · rw [List.mem_singleton] at new
          subst new
          exact (home.1.occupant here).symm
      · intro other sender reads
        cases reads
        exact ⟨home.1.mono rfl fun other => .inl (id_setWaitingBlock other), home.2⟩
  | enqueued thread command args slot origin id activity occupied direct room =>
      have home := attached.readers thread slot origin (by rw [activity]; rfl)
      have counted : Attached (state.countCommand origin) :=
        attached.congr rfl rfl rfl rfl rfl
      refine Attached.setActivity ?_ rfl ?_
      · let block : TransactionBlock σ D := ⟨slot, (state.clients slot).password,
          .direct (prepareTransaction (state.clients slot) command args
            ⟨origin, state.sent origin⟩)⟩
        exact Attached.congr (counted.pushBlock block home.1 trivial) rfl rfl rfl rfl rfl
      · intro other sender reads
        cases reads
        exact home
  | answered thread slot id tag activity occupied waiting =>
      have home := attached.readers thread slot tag.origin (by rw [activity]; rfl)
      refine Attached.congr (attached.setActivity rfl ?_) rfl rfl rfl rfl rfl
      intro other sender reads
      cases reads
      exact home
  | unanswered thread slot id tag waitingTx activity occupied =>
      have home := attached.readers thread slot tag.origin (by rw [activity]; rfl)
      refine attached.setActivity rfl ?_
      intro other sender reads
      cases reads
      exact home
  | ended thread slot origin activity => exact attached.setIdle
  | streamEnded thread slot origin activity =>
      have home := attached.readers thread slot origin (by rw [activity]; rfl)
      apply Attached.addIoRequest attached.setIdle
      exact fun id occupied => home.1.occupant occupied
  | blockPopped block rest idle queue =>
      refine attached.change rfl (fun _ => .inl rfl) ?_ (fun _ responds => by cases responds)
        (fun _ _ member => member) (fun _ _ reads => reads) (fun _ => .inl rfl)
      intro other member
      rw [State.pending, idle, queue]
      exact member
  | executed block next held ran => exact attached.executeBlock held ran
  | responded slot tag toWrite produced responding =>
      have home := attached.responding slot tag.origin (by rw [responding]; rfl)
      have idle : Attached { state with txThread := .idle } := by
        refine attached.change rfl (fun _ => .inl rfl) ?_ (fun _ responds => by cases responds)
          (fun _ _ member => member) (fun _ _ reads => reads) (fun _ => .inl rfl)
        intro other member
        exact List.mem_append_right _ member
      apply idle.addIoRequest
      exact fun id occupied => home.occupant occupied

theorem attached_start (config : Config σ D K) (databases : σ) (loaded : List (Password K)) :
    Attached (start config databases loaded : State σ D K threads) where
  known := nofun
  unique := nofun
  blocks := nofun
  responding := nofun
  operations := nofun
  readers := nofun
  waiting := nofun

end Steps

end TellyDB.Server
