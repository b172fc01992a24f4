import TellyDB.Transactions.Steps

/-!
Owns the delivery of the blocks: the transaction thread executes them in the order in which their
pushes reserved a slot, each once; it spins only for a block that a push has reserved; and what it
leaves behind when it is destroyed is removed by `free_transaction_blocks`.
-/

namespace TellyDB.Transactions

open Lib Lib.Transition Utils Utils.ThreadQueue

variable {τ β : Type} {type : Nat}

section Steps

variable [DecidableEq τ] {txThread : τ} {state next : State τ β type}

/-! ## Counting the rounds -/

/-- A push reserved a slot, and its signal has not been sent yet. -/
def State.owes (state : State τ β type) (thread : τ) : Bool :=
  match state.callers thread with
  | .outside | .killing => false
  | .adding _ | .enqueueing _ => Io.ThreadState.reserved (state.queue.threads thread)
  | .placed => true

/-- The rounds of the inner loop that have not claimed a block yet. -/
def State.rounds (txThread : τ) (state : State τ β type) : Nat :=
  match state.loop with
  | .testing | .waiting | .ended => 0
  | .head count => count
  | .popping rest _ =>
      if Io.ThreadState.claimed (state.queue.threads txThread) then rest else rest + 1
  | .executing _ rest => rest

omit [DecidableEq τ] in
theorem owes_of_block {thread : τ} {block : Element β type}
    (bringing : (state.callers thread).block = some block) :
    state.owes thread = Io.ThreadState.reserved (state.queue.threads thread) := by
  rw [State.owes]
  cases caller : state.callers thread with
  | adding held => rfl
  | enqueueing held => rfl
  | outside | placed | killing =>
      rw [caller] at bringing
      cases bringing

omit [DecidableEq τ] in
/-- A push that returned owes a signal if it reserved a slot. -/
theorem owes_returned {thread : τ} {block : Element β type} {placed : Bool}
    (bringing : (state.callers thread).block = some block)
    (callers : next.callers thread = (state.callers thread).returned placed)
    (idle : next.queue.threads thread = .idle) : next.owes thread = placed := by
  rw [State.owes, callers, idle]
  cases caller : state.callers thread with
  | adding held => cases placed <;> rfl
  | enqueueing held => cases placed <;> rfl
  | outside | placed | killing =>
      rw [caller] at bringing
      cases bringing

omit [DecidableEq τ] in
/-- Only a pop in progress makes the rounds depend on the queue. -/
theorem rounds_congr (loop : next.loop = state.loop)
    (unmoved : state.loop.pops = true →
      next.queue.threads txThread = state.queue.threads txThread) :
    next.rounds txThread = state.rounds txThread := by
  rw [State.rounds, State.rounds, loop]
  cases stops : state.loop with
  | popping rest spins =>
      rw [unmoved (by rw [stops]; rfl)]
  | testing | waiting | head | executing | ended => rfl

variable [Fintype τ]

/-- The signals still to come: those in the notifier, and those that the pushes owe. -/
def State.signals (state : State τ β type) : Nat :=
  state.notifier + tally fun thread => state.owes thread = true

/-- Until the thread is to be destroyed, every block in the queue has one round of the inner loop or
one signal to come, and none has two. -/
structure Counted (txThread : τ) (state : State τ β type) : Prop where
  balance : state.killed = false → state.queue.history.reserved.length =
    state.queue.history.claimed.length + state.rounds txThread + state.signals
  spins : ∀ rest, state.loop = .popping rest true →
    state.queue.history.claimed.length + state.rounds txThread ≤
      state.queue.history.reserved.length
  patient : state.killed = false → ∀ rest, state.loop ≠ .popping rest false

/-- One thread moved: the others owe what they owed. -/
theorem signals_moved {thread : τ}
    (others : ∀ other, other ≠ thread → next.callers other = state.callers other ∧
      next.queue.threads other = state.queue.threads other) :
    next.signals + state.notifier + (state.owes thread).toNat =
      state.signals + next.notifier + (next.owes thread).toNat := by
  have changed := tally_changed (fun other => state.owes other = true)
    (fun other => next.owes other = true) fun other (different : other ≠ thread) => by
      rw [State.owes, State.owes, (others other different).1, (others other different).2]
  have toNat : ∀ value : Bool, (if value = true then 1 else 0) = value.toNat := by decide
  rw [toNat, toNat] at changed
  rw [State.signals, State.signals]
  omega

/-- One thread moved outside of a pop, or inside of one: it is enough to count what it did. -/
theorem Counted.moved {thread : τ} (counted : Counted txThread state)
    (others : ∀ other, other ≠ thread → next.callers other = state.callers other ∧
      next.queue.threads other = state.queue.threads other)
    (alive : next.killed = false → state.killed = false)
    (balance : next.killed = false → next.queue.history.reserved.length +
        state.queue.history.claimed.length + state.rounds txThread + state.notifier +
        (state.owes thread).toNat =
      state.queue.history.reserved.length + next.queue.history.claimed.length +
        next.rounds txThread + next.notifier + (next.owes thread).toNat)
    (spins : ∀ rest, next.loop = .popping rest true →
      next.queue.history.claimed.length + next.rounds txThread ≤
        next.queue.history.reserved.length)
    (patient : next.killed = false → ∀ rest, next.loop ≠ .popping rest false) :
    Counted txThread next where
  balance unkilled := by
    have signals := signals_moved others
    have held := counted.balance (alive unkilled)
    have change := balance unkilled
    omega
  spins := spins
  patient := patient

/-- Only the place of one thread that is idle on the queue changed, and its signal. -/
theorem Counted.recalled (counted : Counted txThread state) {thread : τ} {caller : Caller β type}
    (queue : next.queue = state.queue) (loop : next.loop = state.loop)
    (callers : next.callers = Function.update state.callers thread caller)
    (alive : next.killed = false → state.killed = false)
    (signal : next.killed = false → state.notifier + (state.owes thread).toNat =
      next.notifier + (next.owes thread).toNat) : Counted txThread next := by
  have rounds : next.rounds txThread = state.rounds txThread :=
    rounds_congr loop fun _ => by rw [queue]
  apply @Counted.moved _ _ _ _ _ _ _ _ thread counted _ alive
  · intro unkilled
    have change := signal unkilled
    rw [queue, rounds]
    omega
  · intro rest
    rw [queue, rounds, loop]
    exact counted.spins rest
  · intro unkilled rest
    rw [loop]
    exact counted.patient (alive unkilled) rest
  · intro other different
    rw [callers, Function.update_of_ne different, queue]
    exact ⟨rfl, rfl⟩

/-- Only the loop moved, and the rounds between it and the notifier. -/
theorem Counted.turned (counted : Counted txThread state) (queue : next.queue = state.queue)
    (callers : next.callers = state.callers) (killed : next.killed = state.killed)
    (rounds : next.rounds txThread + next.notifier = state.rounds txThread + state.notifier)
    (spins : ∀ rest, next.loop = .popping rest true →
      state.queue.history.claimed.length + next.rounds txThread ≤
        state.queue.history.reserved.length)
    (patient : next.killed = false → ∀ rest, next.loop ≠ .popping rest false) :
    Counted txThread next := by
  have owes : next.owes txThread = state.owes txThread := by
    rw [State.owes, State.owes, callers, queue]
  apply @Counted.moved _ _ _ _ _ _ _ _ txThread counted _ (fun unkilled => killed ▸ unkilled)
  · intro _
    rw [queue, owes]
    omega
  · intro rest loop
    rw [queue]
    exact spins rest loop
  · exact patient
  · intro other different
    rw [callers, queue]
    exact ⟨rfl, rfl⟩

/-- A step of a push. -/
theorem Counted.push (counted : Counted txThread state) (stands : Stands txThread state)
    {thread : τ} {block : Element β type} {action : ThreadQueue.Action τ β type}
    {queue : ThreadQueue.State τ β type}
    (bringing : (state.callers thread).block = some block) (inPush : InPush thread block action)
    (stepped : ThreadQueue.step state.queue action = some queue) (moved : next.queue = queue)
    (loop : next.loop = state.loop) (notifier : next.notifier = state.notifier)
    (killed : next.killed = state.killed)
    (others : ∀ other, other ≠ thread → next.callers other = state.callers other)
    (owes : next.queue.history.reserved.length + (state.owes thread).toNat =
      state.queue.history.reserved.length + (next.owes thread).toNat) :
    Counted txThread next := by
  have push := inPush_step inPush (stands.pushing bringing) stepped
  have grows := reserved_grows stepped
  have rounds : next.rounds txThread = state.rounds txThread := by
    apply rounds_congr loop
    intro pops
    have still : state.loop.executes = false := by
      cases stops : state.loop <;> rw [stops] at pops <;> first | rfl | cases pops
    rw [moved]
    exact push.others txThread (stands.apart bringing still)
  subst moved
  apply @Counted.moved _ _ _ _ _ _ _ _ thread counted _ (fun unkilled => killed ▸ unkilled)
  · intro _
    rw [rounds, notifier, push.claimed]
    omega
  · intro rest spinning
    rw [loop] at spinning
    have held := counted.spins rest spinning
    rw [rounds, push.claimed]
    omega
  · rw [killed, loop]
    exact counted.patient
  · exact fun other different => ⟨others other different, push.others other different⟩

omit [DecidableEq τ] [Fintype τ] in
theorem copied_isSome (stands : ThreadState β type) :
    (ThreadState.copied stands).isSome = Io.ThreadState.claimed stands := by
  cases stands <;> rfl

/-- A step of a pop. -/
theorem Counted.pop (counted : Counted txThread state) (stands : Stands txThread state)
    {rest : Nat} {spins : Bool} {action : ThreadQueue.Action τ β type}
    {queue : ThreadQueue.State τ β type} (loop : state.loop = .popping rest spins)
    (inPop : InPop txThread action) (stepped : ThreadQueue.step state.queue action = some queue)
    (moved : next.queue = queue) (callers : next.callers = state.callers)
    (notifier : next.notifier = state.notifier) (killed : next.killed = state.killed)
    (rounds : (next.killed = false ∨ ∃ left, next.loop = .popping left true) →
      queue.history.claimed.length + next.rounds txThread =
        state.queue.history.claimed.length + state.rounds txThread)
    (spinning : ∀ left, next.loop = .popping left true → state.loop = .popping left true)
    (patient : next.killed = false → ∀ left, next.loop ≠ .popping left false) :
    Counted txThread next := by
  have pop := inPop_step inPop (stands.popping loop) stepped
  have owes : next.owes txThread = state.owes txThread := by
    rw [State.owes, State.owes, callers, stands.outside loop]
  subst moved
  apply @Counted.moved _ _ _ _ _ _ _ _ txThread counted _ (fun unkilled => killed ▸ unkilled)
  · intro unkilled
    have same := rounds (.inl unkilled)
    rw [notifier, owes, pop.reserved]
    omega
  · intro left spins
    have same := rounds (.inr ⟨left, spins⟩)
    have held := counted.spins left (spinning left spins)
    rw [pop.reserved]
    omega
  · exact patient
  · exact fun other different => ⟨by rw [callers], pop.others other different⟩

omit [Fintype τ] in
/-- A thread destroys the transaction thread only behind its store to `kill_pending`. -/
theorem StepEffect.kills {action : Action τ β type}
    (effect : StepEffect txThread state action next)
    (kills : state.killed = false → ∀ thread, state.callers thread ≠ .killing)
    (unkilled : next.killed = false) (thread : τ) : next.callers thread ≠ .killing := by
  cases effect with
  | @add mover block outside other =>
      simp only [Function.update_apply]
      split
      · exact fun impossible => by cases impossible
      · exact kills unkilled thread
  | enqueue executing outside =>
      simp only [Function.update_apply]
      split
      · exact fun impossible => by cases impossible
      · exact kills unkilled thread
  | @pushed mover block queueAction queue label silent bringing inPush stepped idle =>
      simp only [Function.update_apply]
      split
      · intro killing
        cases caller : state.callers mover <;>
          cases placed : Io.ThreadState.reserved (state.queue.threads mover) <;>
          rw [caller, placed] at killing <;>
          first | exact kills unkilled mover caller | cases killing
      · exact kills unkilled thread
  | signal owing =>
      simp only [Function.update_apply]
      split
      · exact fun impossible => by cases impossible
      · exact kills unkilled thread
  | kill outside other => cases unkilled
  | pushing | popping | popped | test | wake | wait | next | finish => exact kills unkilled thread

theorem StepEffect.counted {action : Action τ β type}
    (effect : StepEffect txThread state action next) (stands : Stands txThread state)
    (kills : state.killed = false → ∀ thread, state.callers thread ≠ .killing)
    (counted : Counted txThread state) : Counted txThread next := by
  cases effect with
  | @add thread block outside other =>
      have idle : state.queue.threads thread = .idle :=
        stands.idle (by rw [outside]; rfl) fun same => absurd same other
      refine counted.recalled rfl rfl rfl id fun _ => ?_
      simp [State.owes, outside, idle, Io.ThreadState.reserved]
  | @enqueue block running rest executing outside =>
      have idle : state.queue.threads txThread = .idle :=
        stands.idle (by rw [outside]; rfl) fun _ => by rw [executing]; rfl
      refine counted.recalled rfl rfl rfl id fun _ => ?_
      simp [State.owes, outside, idle, Io.ThreadState.reserved]
  | @pushing thread block queueAction queue label silent bringing inPush stepped busy =>
      have push := inPush_step inPush (stands.pushing bringing) stepped
      refine counted.push stands bringing inPush stepped rfl rfl rfl rfl (fun _ _ => rfl) ?_
      have owesNext : ({ state with queue := queue } : State τ β type).owes thread =
          Io.ThreadState.reserved (queue.threads thread) := owes_of_block bringing
      rw [owes_of_block bringing, owesNext]
      exact push.reserved busy
  | @pushed thread block queueAction queue label silent bringing inPush stepped idle =>
      have push := inPush_step inPush (stands.pushing bringing) stepped
      refine counted.push stands bringing inPush stepped rfl rfl rfl rfl
        (fun other different => Function.update_of_ne different ..) ?_
      rw [owes_of_block bringing, owes_returned bringing (Function.update_self ..) idle]
      exact congrArg (·.length + _) (push.returned idle)
  | @popping rest spins queueAction queue label silent loop inPop stepped busy =>
      have pop := inPop_step inPop (stands.popping loop) stepped
      have claimed := pop.claimed busy
      refine counted.pop stands loop inPop stepped rfl rfl rfl rfl (fun _ => ?_)
        (fun left spinning => spinning) counted.patient
      simp only [State.rounds, loop]
      cases before : Io.ThreadState.claimed (state.queue.threads txThread) <;>
        cases after : Io.ThreadState.claimed (queue.threads txThread) <;>
        rw [before, after] at claimed <;>
        simp only [Bool.toNat_true, Bool.toNat_false, if_true, if_false,
          Bool.false_eq_true] at claimed ⊢ <;>
        omega
  | @popped rest spins queueAction queue label silent loop inPop stepped idle =>
      have pop := inPop_step inPop (stands.popping loop) stepped
      have returned := (pop.returned idle).1
      have copied := copied_isSome (state.queue.threads txThread)
      have nothing : Io.ThreadState.claimed (queue.threads txThread) = false := by
        rw [idle]
        rfl
      cases found : ThreadState.copied (state.queue.threads txThread) with
      | some block =>
          rw [found] at copied
          refine counted.pop stands loop inPop stepped rfl rfl rfl rfl (fun _ => ?_)
            (fun left impossible => by cases impossible) fun _ left impossible => by cases impossible
          simp [State.rounds, loop, Loop.returned, ← copied, returned]
      | none =>
          rw [found] at copied
          cases spins with
          | true =>
              refine counted.pop stands loop inPop stepped rfl rfl rfl rfl (fun _ => ?_)
                (fun left spinning => loop.trans spinning)
                fun _ left impossible => by cases impossible
              simp [State.rounds, loop, Loop.returned, ← copied, returned, nothing]
          | false =>
              refine counted.pop stands loop inPop stepped rfl rfl rfl rfl ?_
                (fun left impossible => by cases impossible)
                fun _ left impossible => by cases impossible
              rintro (unkilled | ⟨left, impossible⟩)
              · exact absurd loop (counted.patient unkilled rest)
              · cases impossible
  | @signal thread owing =>
      refine counted.recalled rfl rfl rfl id fun unkilled => ?_
      rcases owing with placed | killing
      · simp [State.owes, placed]
      · exact absurd killing (kills unkilled thread)
  | @kill thread outside other =>
      refine counted.recalled rfl rfl rfl ?_ ?_
      · exact fun impossible => by cases impossible
      · exact fun impossible => by cases impossible
  | test testing =>
      cases killed : state.killed with
      | true =>
          refine counted.turned rfl rfl killed.symm ?_ (fun rest impossible => by cases impossible)
            fun _ rest impossible => by cases impossible
          simp [State.rounds, testing]
      | false =>
          refine counted.turned rfl rfl killed.symm ?_ (fun rest impossible => by cases impossible)
            fun _ rest impossible => by cases impossible
          simp [State.rounds, testing]
  | wake waiting =>
      refine counted.turned rfl rfl rfl ?_ (fun rest impossible => by cases impossible)
        fun _ rest impossible => by cases impossible
      simp only [State.rounds, waiting]
      exact Nat.add_comm ..
  | wait head =>
      refine counted.turned rfl rfl rfl ?_ (fun rest impossible => by cases impossible)
        fun _ rest impossible => by cases impossible
      simp only [State.rounds, head]
  | @next rest head =>
      have outside : state.callers txThread = .outside := stands.alone (by rw [head]; rfl)
      have idle : state.queue.threads txThread = .idle :=
        stands.idle (by rw [outside]; rfl) fun _ => by rw [head]; rfl
      have rounds : ({ state with loop := .popping rest !state.killed } : State τ β type).rounds
          txThread = state.rounds txThread := by
        simp [State.rounds, head, idle, Io.ThreadState.claimed]
      refine counted.turned rfl rfl rfl (by rw [rounds]) ?_ ?_
      · intro other spinning
        have unkilled : state.killed = false := by
          cases killed : state.killed with
          | true =>
              rw [killed] at spinning
              cases spinning
          | false => rfl
        have balance := counted.balance unkilled
        rw [rounds]
        omega
      · intro unkilled other patient
        have unkilled : state.killed = false := unkilled
        rw [unkilled] at patient
        cases patient
  | finish executing outside =>
      refine counted.turned rfl rfl rfl ?_ (fun rest impossible => by cases impossible)
        fun _ rest impossible => by cases impossible
      simp only [State.rounds, executing]

end Steps

/-! ## What was popped -/

section Records

variable [DecidableEq τ] {txThread : τ} {state next : State τ β type}

/-- The block under execution. -/
def Loop.current : Loop β type → List (Element β type)
  | .executing block _ => [block]
  | _ => []

/-- The blocks whose execution has begun, in order. -/
def State.started (state : State τ β type) : List (Element β type) :=
  state.executed ++ state.loop.current

/-- The thread executes what it pops, in the order of the positions it claims. -/
structure Recorded (txThread : τ) (state : State τ β type) : Prop where
  inTurn : InTurn txThread state.queue
  started : state.started = state.queue.history.popped.map Popped.value

omit [DecidableEq τ] in
/-- The queue and the blocks did not move. -/
theorem Recorded.same (recorded : Recorded txThread state) (queue : next.queue = state.queue)
    (started : next.started = state.started) : Recorded txThread next where
  inTurn := by
    rw [queue]
    exact recorded.inTurn
  started := by
    rw [queue, started]
    exact recorded.started

theorem StepEffect.recorded {action : Action τ β type}
    (effect : StepEffect txThread state action next) (stands : Stands txThread state)
    (recorded : Recorded txThread state) : Recorded txThread next := by
  cases effect with
  | pushing silent bringing inPush stepped busy =>
      exact {
        inTurn := recorded.inTurn.push inPush (stands.pushing bringing) stepped
        started := by
          rw [inPush_popped inPush (stands.pushing bringing) stepped]
          exact recorded.started }
  | pushed silent bringing inPush stepped idle =>
      exact {
        inTurn := recorded.inTurn.push inPush (stands.pushing bringing) stepped
        started := by
          rw [inPush_popped inPush (stands.pushing bringing) stepped]
          exact recorded.started }
  | popping silent loop inPop stepped busy =>
      have record := inPop_record inPop (stands.popping loop) stepped
      exact {
        inTurn := record.inTurn recorded.inTurn
        started := by
          rw [record.busy busy]
          exact recorded.started }
  | @popped rest spins queueAction queue label silent loop inPop stepped idle =>
      have record := inPop_record inPop (stands.popping loop) stepped
      have before := recorded.started
      rw [State.started, loop] at before
      have same : state.executed = state.queue.history.popped.map Popped.value :=
        (List.append_nil _).symm.trans before
      refine ⟨record.inTurn recorded.inTurn, ?_⟩
      rw [record.returned idle, ← same]
      cases ThreadState.copied (state.queue.threads txThread) with
      | some block => rfl
      | none => cases spins <;> rfl
  | add outside other => exact recorded.same rfl rfl
  | enqueue executing outside => exact recorded.same rfl rfl
  | signal owing => exact recorded.same rfl rfl
  | kill outside other => exact recorded.same rfl rfl
  | test testing =>
      refine recorded.same rfl ?_
      rw [State.started, State.started, testing]
      cases state.killed <;> rfl
  | wake waiting => exact recorded.same rfl (by rw [State.started, State.started, waiting]; rfl)
  | wait head => exact recorded.same rfl (by rw [State.started, State.started, head]; rfl)
  | next head => exact recorded.same rfl (by rw [State.started, State.started, head]; rfl)
  | finish executing outside =>
      refine recorded.same rfl ?_
      rw [State.started, State.started, executing]
      exact List.append_nil _

end Records

/-! ## What was placed -/

section Places

variable [DecidableEq τ] {txThread : τ}

/-- The block of a push that has not reserved a slot yet. -/
def pendingOf (thread : τ) (block : Option (Element β type)) (stands : ThreadState β type) :
    List (τ × Element β type) :=
  if Io.ThreadState.reserved stands then [] else (block.map fun block => (thread, block)).toList

section Queue

variable {state next : ThreadQueue.State τ β type} {thread : τ} {block : Element β type}
  {action : ThreadQueue.Action τ β type}

/-- What a step of a push does to its block, until the push returns. -/
structure PlaceStep (thread : τ) (block : Element β type)
    (state next : ThreadQueue.State τ β type) : Prop where
  holds : ∀ value ∈ Io.ThreadState.unplaced (next.threads thread), value = block
  placed : next.threads thread ≠ .idle →
    next.history.reserved ++ pendingOf thread (some block) (next.threads thread) =
      state.history.reserved ++ pendingOf thread (some block) (state.threads thread)

omit [DecidableEq τ] in
/-- A step that reserves nothing. -/
theorem PlaceStep.moved {moved : ThreadState β type} (threads : next.threads thread = moved)
    (reserved : next.history.reserved = state.history.reserved)
    (holds : ∀ value ∈ Io.ThreadState.unplaced moved, value = block)
    (kept : moved = .idle ∨
      Io.ThreadState.reserved moved = Io.ThreadState.reserved (state.threads thread)) :
    PlaceStep thread block state next where
  holds := by
    rw [threads]
    exact holds
  placed busy := by
    rw [threads] at busy ⊢
    rcases kept with idle | same
    · exact absurd idle busy
    · rw [pendingOf, pendingOf, same, reserved]

theorem inPush_places (inPush : InPush thread block action)
    (ready : state.threads thread = .idle ∨ Io.ThreadState.pushes (state.threads thread))
    (holds : ∀ value ∈ Io.ThreadState.unplaced (state.threads thread), value = block)
    (stepped : ThreadQueue.step state action = some next) : PlaceStep thread block state next := by
  cases inPush with
  | call =>
      rw [ThreadQueue.step] at stepped
      split at stepped
      · next idle =>
          cases stepped
          refine .moved (State.setThread_self ..) rfl ?_ (.inr (by rw [idle]; rfl))
          simp [Io.ThreadState.unplaced]
      · cases stepped
  | inside inside =>
      rcases ready with idle | pushing
      · rw [Io.inside_idle inside idle] at stepped
        cases stepped
      cases inside with
      | copyByte byte =>
          rw [ThreadQueue.step] at stepped
          split at stepped
          · next copying =>
              cases stepped
              refine .moved (State.setThread_self ..) rfl ?_ (.inr (by rw [copying]; rfl))
              simp [Io.ThreadState.unplaced]
          · next copying =>
              rw [copying] at pushing
              cases pushing
          · cases stepped
      | advance attempted =>
          rw [ThreadQueue.step, advance] at stepped
          cases stands : state.threads thread with
          | idle | popLoadAt | popLoadSeq | popTest | popCopy =>
              rw [stands] at pushing
              cases pushing
          | pushLoadEnd | pushLoadSeq =>
              rw [stands] at stepped holds
              cases stepped
              exact .moved (State.setThread_self ..) rfl holds (.inr (by rw [stands]; rfl))
          | pushTest value position seq =>
              rw [stands] at stepped holds
              have same : value = block := holds value rfl
              simp only at stepped
              split_ifs at stepped
              · cases stepped
                refine ⟨?_, fun _ => ?_⟩
                · simp [reserve, Io.ThreadState.unplaced]
                · simp [reserve, State.setThread, stands, pendingOf, Io.ThreadState.reserved, same]
              · cases stepped
                exact .moved (State.setThread_self ..) rfl holds (.inr (by rw [stands]; rfl))
              · cases stepped
                refine .moved (State.setThread_self ..) rfl ?_ (.inl rfl)
                simp [Io.ThreadState.unplaced]
              · cases stepped
                exact .moved (State.setThread_self ..) rfl holds (.inr (by rw [stands]; rfl))
          | pushCopy value position copied =>
              rw [stands] at stepped
              simp only at stepped
              split_ifs at stepped
              cases stepped
              refine .moved (State.setThread_self ..) rfl ?_ (.inl rfl)
              simp [Io.ThreadState.unplaced]

end Queue

variable {state next : State τ β type}

/-- The blocks of a thread, in order: those with a slot, and the one it is about to place. -/
def placesOf (thread : τ) (state : State τ β type) : List (τ × Element β type) :=
  (state.queue.history.reserved ++ pendingOf thread (state.callers thread).block
    (state.queue.threads thread)).filter fun entry => entry.1 = thread

/-- A thread pushes the block it brings, and only the transaction thread gives up. -/
structure Bringing (txThread : τ) (state : State τ β type) : Prop where
  holds : ∀ thread block, (state.callers thread).block = some block →
    ∀ value ∈ Io.ThreadState.unplaced (state.queue.threads thread), value = block
  enqueues : ∀ thread block, state.callers thread = .enqueueing block → thread = txThread

/-- One thread moved, and what it pushes is what it brings. -/
theorem Bringing.moved (bringing : Bringing txThread state) {thread : τ}
    (others : ∀ other, other ≠ thread → next.callers other = state.callers other ∧
      next.queue.threads other = state.queue.threads other)
    (holds : ∀ block, (next.callers thread).block = some block →
      ∀ value ∈ Io.ThreadState.unplaced (next.queue.threads thread), value = block)
    (enqueues : ∀ block, next.callers thread = .enqueueing block → thread = txThread) :
    Bringing txThread next where
  holds other block := by
    by_cases same : other = thread
    · rw [same]
      exact holds block
    · rw [(others other same).1, (others other same).2]
      exact bringing.holds other block
  enqueues other block := by
    by_cases same : other = thread
    · rw [same]
      exact enqueues block
    · rw [(others other same).1]
      exact bringing.enqueues other block

/-- Only the place of one thread that is idle on the queue changed. -/
theorem Bringing.recalled (bringing : Bringing txThread state) {thread : τ} {caller : Caller β type}
    (queue : next.queue = state.queue)
    (callers : next.callers = Function.update state.callers thread caller)
    (idle : state.queue.threads thread = .idle)
    (enqueues : ∀ block, caller = .enqueueing block → thread = txThread) :
    Bringing txThread next := by
  apply @Bringing.moved _ _ _ _ _ _ _ bringing thread
  · intro other different
    rw [callers, queue, Function.update_of_ne different]
    exact ⟨rfl, rfl⟩
  · intro block _ value unplaced
    rw [queue, idle] at unplaced
    cases unplaced
  · intro block
    rw [callers, Function.update_self]
    exact enqueues block

/-- No thread that brings a block moved. -/
theorem Bringing.same (bringing : Bringing txThread state)
    (callers : next.callers = state.callers)
    (others : ∀ other, other ≠ txThread →
      next.queue.threads other = state.queue.threads other)
    (own : (state.callers txThread).block = none ∨
      next.queue.threads txThread = state.queue.threads txThread) : Bringing txThread next := by
  apply @Bringing.moved _ _ _ _ _ _ _ bringing txThread
  · exact fun other different => ⟨by rw [callers], others other different⟩
  · intro block brings
    rw [callers] at brings
    rcases own with nothing | same
    · rw [nothing] at brings
      cases brings
    · rw [same]
      exact bringing.holds txThread block brings
  · exact fun _ _ => rfl

theorem StepEffect.bringing {action : Action τ β type}
    (effect : StepEffect txThread state action next) (stands : Stands txThread state)
    (bringing : Bringing txThread state) : Bringing txThread next := by
  cases effect with
  | @add thread block outside other =>
      have idle : state.queue.threads thread = .idle :=
        stands.idle (by rw [outside]; rfl) fun same => absurd same other
      exact bringing.recalled rfl rfl idle fun block impossible => by cases impossible
  | @enqueue block running rest executing outside =>
      have idle : state.queue.threads txThread = .idle :=
        stands.idle (by rw [outside]; rfl) fun _ => by rw [executing]; rfl
      exact bringing.recalled rfl rfl idle fun block _ => rfl
  | @pushing thread block queueAction queue label silent brings inPush stepped busy =>
      have push := inPush_step inPush (stands.pushing brings) stepped
      have place := inPush_places inPush (stands.pushing brings)
        (bringing.holds thread block brings) stepped
      apply @Bringing.moved _ _ _ _ _ _ _ bringing thread
      · exact fun other different => ⟨rfl, push.others other different⟩
      · intro other same
        have equal : block = other := Option.some.inj (brings.symm.trans same)
        rw [← equal]
        exact place.holds
      · exact bringing.enqueues thread
  | @pushed thread block queueAction queue label silent brings inPush stepped idle =>
      have push := inPush_step inPush (stands.pushing brings) stepped
      apply @Bringing.moved _ _ _ _ _ _ _ bringing thread
      · exact fun other different =>
          ⟨Function.update_of_ne different .., push.others other different⟩
      · intro other _ value unplaced
        have nothing : Io.ThreadState.unplaced (queue.threads thread) = some value := unplaced
        rw [idle] at nothing
        cases nothing
      · intro other
        simp only [Function.update_self]
        intro enqueueing
        have unplaced : (state.callers thread) = .enqueueing other := by
          cases caller : state.callers thread <;>
            cases placed : Io.ThreadState.reserved (state.queue.threads thread) <;>
            rw [caller, placed] at enqueueing <;>
            cases enqueueing
        exact bringing.enqueues thread other unplaced
  | popping silent loop inPop stepped busy =>
      have pop := inPop_step inPop (stands.popping loop) stepped
      exact bringing.same rfl pop.others (.inl (by rw [stands.outside loop]; rfl))
  | popped silent loop inPop stepped idle =>
      have pop := inPop_step inPop (stands.popping loop) stepped
      exact bringing.same rfl pop.others (.inl (by rw [stands.outside loop]; rfl))
  | signal owing =>
      exact bringing.recalled rfl rfl (stands.owing owing) fun block impossible => by
        cases impossible
  | @kill thread outside other =>
      have idle : state.queue.threads thread = .idle :=
        stands.idle (by rw [outside]; rfl) fun same => absurd same other
      exact bringing.recalled rfl rfl idle fun block impossible => by cases impossible
  | test | wake | wait | next | finish =>
      exact bringing.same rfl (fun _ _ => rfl) (.inr rfl)

/-! ### The blocks of a thread -/

theorem placesOf_congr {thread : τ} (reserved : next.queue.history.reserved =
      state.queue.history.reserved)
    (pending : pendingOf thread (next.callers thread).block (next.queue.threads thread) =
      pendingOf thread (state.callers thread).block (state.queue.threads thread)) :
    placesOf thread next = placesOf thread state := by
  rw [placesOf, placesOf, reserved, pending]

/-- A step of the push of another thread. -/
theorem placesOf_beside {thread mover : τ} {block : Element β type} (different : thread ≠ mover)
    (callers : next.callers thread = state.callers thread)
    (threads : next.queue.threads thread = state.queue.threads thread)
    (placed : next.queue.history.reserved = state.queue.history.reserved ∨
      next.queue.history.reserved ++
          pendingOf mover (some block) (next.queue.threads mover) =
        state.queue.history.reserved ++
          pendingOf mover (some block) (state.queue.threads mover)) :
    placesOf thread next = placesOf thread state := by
  have beside : ∀ stands : ThreadState β type,
      (pendingOf mover (some block) stands).filter (fun entry => entry.1 = thread) = [] := by
    intro stands
    unfold pendingOf
    split
    · rfl
    · simp [Ne.symm different]
  have reserved : next.queue.history.reserved.filter (fun entry => entry.1 = thread) =
      state.queue.history.reserved.filter (fun entry => entry.1 = thread) := by
    rcases placed with same | same
    · rw [same]
    · have filtered := congrArg (List.filter fun entry => decide (entry.1 = thread)) same
      rw [List.filter_append, List.filter_append, beside, beside, List.append_nil,
        List.append_nil] at filtered
      exact filtered
  rw [placesOf, placesOf, List.filter_append, List.filter_append, reserved, callers, threads]

omit [DecidableEq τ] in
theorem pendingOf_returned (thread : τ) (block : Element β type) (stands : ThreadState β type) :
    pendingOf thread ((Caller.adding block).returned (Io.ThreadState.reserved stands)).block .idle =
      pendingOf thread (some block) stands := by
  unfold pendingOf
  cases Io.ThreadState.reserved stands <;> rfl

/-- A thread that brings no block stays one. -/
theorem block_update {thread mover : τ} {callers : τ → Caller β type} {caller : Caller β type}
    (before : (callers mover).block = none) (after : caller.block = none) :
    (Function.update callers mover caller thread).block = (callers thread).block := by
  by_cases same : thread = mover
  · rw [same, Function.update_self, before, after]
  · rw [Function.update_of_ne same]

/-- A step adds to the blocks of a thread what it brings to `add_transaction`, and loses none. -/
theorem StepEffect.placesOf {action : Action τ β type}
    (effect : StepEffect txThread state action next) (stands : Stands txThread state)
    (bringing : Bringing txThread state) {thread : τ} (other : thread ≠ txThread) :
    Transactions.placesOf thread next = Transactions.placesOf thread state ++
      (addedBy action).toList.filter fun entry => entry.1 = thread := by
  cases effect with
  | @add mover block outside apart =>
      have idle : state.queue.threads mover = .idle :=
        stands.idle (by rw [outside]; rfl) fun same => absurd same apart
      by_cases same : thread = mover
      · subst same
        simp [Transactions.placesOf, outside, idle, pendingOf, Caller.block, addedBy,
          Io.ThreadState.reserved]
      · simp [Transactions.placesOf, Function.update_of_ne same, addedBy, Ne.symm same]
  | enqueue executing outside =>
      refine Eq.trans ?_ (List.append_nil _).symm
      apply placesOf_congr
      · rfl
      · simp only [Function.update_of_ne other]
  | @pushing mover block queueAction queue label silent brings inPush stepped busy =>
      rw [silent]
      refine Eq.trans ?_ (List.append_nil _).symm
      have push := inPush_step inPush (stands.pushing brings) stepped
      have place := inPush_places inPush (stands.pushing brings)
        (bringing.holds mover block brings) stepped
      by_cases same : thread = mover
      · subst same
        rw [Transactions.placesOf, Transactions.placesOf, brings]
        exact congrArg _ (place.placed busy)
      · exact placesOf_beside same rfl (push.others thread same) (.inr (place.placed busy))
  | @pushed mover block queueAction queue label silent brings inPush stepped idle =>
      rw [silent]
      refine Eq.trans ?_ (List.append_nil _).symm
      have push := inPush_step inPush (stands.pushing brings) stepped
      by_cases same : thread = mover
      · subst same
        apply placesOf_congr
        · exact push.returned idle
        · simp only [Function.update_self, idle]
          cases caller : state.callers thread with
          | adding held => exact pendingOf_returned thread held _
          | enqueueing held => exact absurd (bringing.enqueues thread held caller) other
          | outside | placed | killing =>
              rw [caller] at brings
              cases brings
      · exact @placesOf_beside _ _ _ _ _ _ thread mover block same
          (Function.update_of_ne same ..) (push.others thread same) (.inl (push.returned idle))
  | popping silent loop inPop stepped busy =>
      rw [silent]
      refine Eq.trans ?_ (List.append_nil _).symm
      have pop := inPop_step inPop (stands.popping loop) stepped
      apply placesOf_congr pop.reserved
      rw [pop.others thread other]
  | popped silent loop inPop stepped idle =>
      rw [silent]
      refine Eq.trans ?_ (List.append_nil _).symm
      have pop := inPop_step inPop (stands.popping loop) stepped
      apply placesOf_congr pop.reserved
      rw [pop.others thread other]
  | @signal mover owing =>
      refine Eq.trans ?_ (List.append_nil _).symm
      apply placesOf_congr
      · rfl
      · have nothing : (state.callers mover).block = none := by
          rcases owing with placed | killing
          · rw [placed]
            rfl
          · rw [killing]
            rfl
        simp only [block_update nothing (show (Caller.outside : Caller β type).block = none from rfl)]
  | @kill mover outside apart =>
      refine Eq.trans ?_ (List.append_nil _).symm
      apply placesOf_congr
      · rfl
      · have nothing : (state.callers mover).block = none := by
          rw [outside]
          rfl
        simp only [block_update nothing (show (Caller.killing : Caller β type).block = none from rfl)]
  | test | wake | wait | next | finish => exact (List.append_nil _).symm

end Places

/-! ## A queue at rest -/

section Rest

variable {state : ThreadQueue.State τ β type}

/-- While no thread works on it, the queue stores what was reserved and not claimed. -/
theorem stores_rest (invariant : Invariant state) (noWrap : NoWrap state)
    (idle : ∀ thread, state.threads thread = .idle) :
    Stores state.queue
      ((state.history.reserved.map Prod.snd).drop state.history.claimed.length) := by
  have ordered := invariant.at_le_end
  have bounded := invariant.end_le
  have twoLe := invariant.two_le_capacity
  have small : state.history.reserved.length + state.queue.capacity.toNat ≤ 2 ^ 64 := noWrap
  have length : ((state.history.reserved.map Prod.snd).drop state.history.claimed.length).length =
      state.history.reserved.length - state.history.claimed.length := by
    rw [List.length_drop, List.length_map]
  have place : ∀ index, index < state.queue.capacity.toNat →
      (state.queue.qat + BitVec.ofNat 64 index).toNat = state.history.claimed.length + index := by
    intro index inside
    rw [BitVec.toNat_add, BitVec.toNat_ofNat, invariant.at_eq, Nat.mod_eq_of_lt (by omega),
      Nat.mod_eq_of_lt (by omega)]
  have notWriting : ∀ position, ¬IsWriting state position := by
    rintro position ⟨thread, value, word, copied, copying, -⟩
    rw [idle thread] at copying
    cases copying
  have notReading : ∀ position, ¬IsReading state position := by
    rintro position ⟨thread, dst, word, copied, copying, -⟩
    rw [idle thread] at copying
    cases copying
  constructor
  case power => exact invariant.capacity_pow
  case bound => omega
  case qend =>
    apply BitVec.eq_of_toNat_eq
    rw [length, BitVec.toNat_add, BitVec.toNat_ofNat, invariant.at_eq, invariant.end_eq,
      Nat.mod_eq_of_lt (by omega), Nat.mod_eq_of_lt (by omega)]
    omega
  case full =>
    intro index value held
    have inside := (List.getElem?_eq_some_iff.mp held).1
    rw [length] at inside
    rw [List.getElem?_drop] at held
    have position := place index (by omega)
    cases invariant.stage (state.history.claimed.length + index) (by omega) (by omega) with
    | writing _ _ writer => exact absurd writer (notWriting _)
    | reading _ _ reader _ => exact absurd reader (notReading _)
    | free claimed _ _ => omega
    | full unclaimed seq data =>
        have same : (state.queue.slotAt (state.queue.qat + BitVec.ofNat 64 index)).seq =
            state.queue.qat + BitVec.ofNat 64 index + 1 := by
          apply BitVec.eq_of_toNat_eq
          rw [invariant.seq_toNat, position, seq, BitVec.toNat_add, position]
          exact (Nat.mod_eq_of_lt (by omega)).symm
        have value_eq : (state.queue.slotAt (state.queue.qat + BitVec.ofNat 64 index)).data =
            value := by
          rw [List.getElem?_map, data] at held
          rw [invariant.data_eq, position]
          exact Option.some.inj held
        rw [← same, ← value_eq]
  case free =>
    intro index beyond inside
    rw [length] at beyond
    apply BitVec.eq_of_toNat_eq
    rw [invariant.seq_toNat, place index inside]
    by_cases first : state.history.claimed.length + index < state.queue.capacity.toNat
    · exact invariant.untouched _ (by omega) first
    · have turn : seqOf state (state.history.claimed.length + index) =
          seqOf state (state.history.claimed.length + index - state.queue.capacity.toNat) := by
        rw [seqOf, seqOf, ← Nat.mod_eq_sub_mod (by omega)]
      cases invariant.stage
          (state.history.claimed.length + index - state.queue.capacity.toNat)
          (by omega) (by omega) with
      | writing _ _ writer => exact absurd writer (notWriting _)
      | reading _ _ reader _ => exact absurd reader (notReading _)
      | full unclaimed _ _ => omega
      | free _ seq _ =>
          rw [turn, seq]
          omega

/-- A consumer that pops in turn gets the elements in the order of their reservations. -/
theorem popped_take {consumer : τ} (invariant : Invariant state) (inTurn : InTurn consumer state) :
    state.history.popped.map Popped.value =
      (state.history.reserved.map Prod.snd).take state.history.popped.length := by
  have positions : (state.history.popped.map fun record => record.position.toNat) ++
      (ThreadState.held (state.threads consumer)).map BitVec.toNat =
      List.range state.history.claimed.length := by
    have mapped := congrArg (List.map BitVec.toNat) inTurn
    rw [List.map_append, List.map_map, List.map_map] at mapped
    rw [← invariant.claims]
    exact mapped.symm
  have within : state.history.popped.length ≤ state.history.claimed.length := by
    have lengths := congrArg List.length positions
    rw [List.length_append, List.length_map, List.length_range] at lengths
    omega
  have reserved := invariant.at_le_end
  apply List.ext_getElem
  · rw [List.length_map, List.length_take, List.length_map]
    omega
  · intro index popped placed
    rw [List.length_map] at popped
    have place : state.history.popped[index].position.toNat = index := by
      have found : ((state.history.popped.map fun record => record.position.toNat) ++
          (ThreadState.held (state.threads consumer)).map BitVec.toNat)[index]? =
          some state.history.popped[index].position.toNat := by
        rw [List.getElem?_append_left (by rwa [List.length_map]), List.getElem?_map,
          List.getElem?_eq_getElem popped]
        rfl
      rw [positions, List.getElem?_range (by omega)] at found
      exact (Option.some.inj found).symm
    have value := invariant.returned_reserved _ (List.getElem_mem popped)
    rw [place, List.getElem?_eq_getElem (by omega)] at value
    rw [List.getElem_map, List.getElem_take, List.getElem_map]
    exact (Option.some.inj value).symm

/-- `free_transaction_blocks` removes what the queue stores, in order, and ends. -/
theorem freeTransactionBlocks_stores {queue : ThreadQueue β type} {stored : List (Element β type)}
    (stores : Stores queue stored) {turns : Nat} (enough : stored.length < turns) :
    freeTransactionBlocks turns queue = some stored := by
  induction stored generalizing queue turns with
  | nil =>
      obtain ⟨turns, rfl⟩ := Nat.exists_eq_add_of_lt enough
      have empty : estimateTqueueSize queue = 0 := BitVec.eq_of_toNat_eq stores.estimate
      rw [freeTransactionBlocks, if_pos empty]
  | cons block rest inductionHypothesis =>
      obtain ⟨turns, rfl⟩ := Nat.exists_eq_add_of_lt enough
      have filled : estimateTqueueSize queue ≠ 0 := by
        intro empty
        have size := stores.estimate
        rw [empty] at size
        cases size
      obtain ⟨next, popped, storesNext⟩ := stores.pop
      have left : freeTransactionBlocks ((block :: rest).length + turns) next = some rest :=
        inductionHypothesis storesNext (by
          rw [List.length_cons]
          omega)
      rw [freeTransactionBlocks, if_neg filled, popped]
      show (freeTransactionBlocks ((block :: rest).length + turns) next).bind _ = _
      rw [left]
      rfl

end Rest

/-! ## Every run -/

section Runs

variable [DecidableEq τ] [Fintype τ] {txThread : τ} {state next : State τ β type}

/-- The blocks brought to `add_transaction`, in order. -/
def added (actions : List (Action τ β type)) : List (τ × Element β type) :=
  actions.filterMap addedBy

/-- The blocks that have a slot, in the order of their reservations. -/
def State.placed (state : State τ β type) : List (Element β type) :=
  state.queue.history.reserved.map Prod.snd

/-- What the steps of a run keep. -/
structure Kept (txThread : τ) (state : State τ β type) : Prop where
  stands : Stands txThread state
  kills : state.killed = false → ∀ thread, state.callers thread ≠ .killing
  counted : Counted txThread state
  recorded : Recorded txThread state
  bringing : Bringing txThread state
  invariant : NoWrap state.queue → Invariant state.queue

omit [Fintype τ] in
/-- While no counter has wrapped, the queue keeps its invariant. -/
theorem StepEffect.invariant {action : Action τ β type}
    (effect : StepEffect txThread state action next)
    (held : NoWrap state.queue → Invariant state.queue) (noWrap : NoWrap next.queue) :
    Invariant next.queue := by
  have stepped : ∀ {queueAction} {queue : ThreadQueue.State τ β type},
      ThreadQueue.step state.queue queueAction = some queue → NoWrap queue → Invariant queue := by
    intro queueAction queue stepped noWrap
    have effect := ThreadQueue.step_effect stepped
    exact effect.invariant noWrap (held (effect.noWrap noWrap))
  cases effect with
  | pushing silent brings inPush queued busy => exact stepped queued noWrap
  | pushed silent brings inPush queued idle => exact stepped queued noWrap
  | popping silent loop inPop queued busy => exact stepped queued noWrap
  | popped silent loop inPop queued idle => exact stepped queued noWrap
  | add | enqueue | signal | kill | test | wake | wait | next | finish => exact held noWrap

theorem kept_step {action : Action τ β type} (kept : Kept txThread state)
    (stepped : step txThread state action = some next) : Kept txThread next :=
  have effect := step_effect stepped
  { stands := effect.stands kept.stands
    kills := effect.kills kept.kills
    counted := effect.counted kept.stands kept.kills kept.counted
    recorded := effect.recorded kept.stands kept.recorded
    bringing := effect.bringing kept.stands kept.bringing
    invariant := effect.invariant kept.invariant }

theorem kept_initial {capacity align : Word} {memory : Nat → ThreadQueueSlot β type}
    {queue : ThreadQueue β type} (created : createTqueue capacity align memory = some queue)
    (twoLe : 2 ≤ capacity.toNat) : Kept txThread (initial queue : State τ β type) where
  stands := {
    seated := fun _ => seated_idle _
    alone := fun _ => rfl }
  kills _ _ impossible := by cases impossible
  counted := {
    balance := fun _ => by
      have none : tally (fun thread : τ =>
          (initial queue : State τ β type).owes thread = true) = 0 :=
        tally_eq_zero fun _ impossible => by cases impossible
      rw [State.signals, none]
      rfl
    spins := fun _ impossible => by cases impossible
    patient := fun _ _ impossible => by cases impossible }
  recorded := ⟨rfl, rfl⟩
  bringing := {
    holds := fun _ _ impossible => by cases impossible
    enqueues := fun _ _ impossible => by cases impossible }
  invariant _ := initial_invariant created twoLe

theorem placesOf_run {actions : List (Action τ β type)} {final : State τ β type} {thread : τ}
    (kept : Kept txThread state) (other : thread ≠ txThread)
    (ran : run (step txThread) state actions = some final) :
    placesOf thread final = placesOf thread state ++
      (added actions).filter fun entry => entry.1 = thread := by
  induction actions generalizing state with
  | nil =>
      cases ran
      exact (List.append_nil _).symm
  | cons action rest inductionHypothesis =>
      obtain ⟨next, stepped, ran⟩ := run_cons_eq_some.mp ran
      have first := (step_effect stepped).placesOf kept.stands kept.bringing other
      rw [inductionHypothesis (kept_step kept stepped) ran, first, List.append_assoc,
        ← List.filter_append]
      congr 2
      cases brings : addedBy action <;> simp [added, brings]

/-- All threads came to rest, and the transaction thread is not to be destroyed. -/
structure AtRest (state : State τ β type) : Prop where
  waiting : state.loop = .waiting
  spent : state.notifier = 0
  outside : ∀ thread, state.callers thread = .outside
  unkilled : state.killed = false

/-- No block is lost, executed twice or out of turn. -/
structure Delivered (txThread : τ) (actions : List (Action τ β type)) (final : State τ β type) :
    Prop where
  /-- A thread in `add_transaction` places its blocks in order, and waits for room. -/
  placed : ∀ thread, thread ≠ txThread →
    placesOf thread final = (added actions).filter fun entry => entry.1 = thread
  /-- The blocks are executed in the order of their slots, each once. -/
  order : final.started <+: final.placed
  /-- The thread spins only for a block that has a slot. -/
  spins : ∀ rest, final.loop = .popping rest true →
    Io.ThreadState.claimed (final.queue.threads txThread) = false →
    final.started.length < final.placed.length
  /-- At rest all blocks have been executed. -/
  rest : AtRest final → final.started = final.placed

theorem kept_run {actions : List (Action τ β type)} {final : State τ β type}
    (kept : Kept txThread state) (ran : run (step txThread) state actions = some final) :
    Kept txThread final :=
  run_invariant (fun _ _ _ kept stepped => kept_step kept stepped) kept ran

omit [DecidableEq τ] [Fintype τ] in
/-- What was started is what was claimed, but for the block that is being copied. -/
theorem Recorded.claimed (recorded : Recorded txThread state) :
    state.queue.history.claimed.length =
      state.started.length + (ThreadState.held (state.queue.threads txThread)).length := by
  have lengths := congrArg List.length recorded.inTurn
  rw [recorded.started, List.length_map]
  rwa [List.length_map, List.length_append, List.length_map] at lengths

theorem Kept.order (kept : Kept txThread state) (noWrap : NoWrap state.queue) :
    state.started = state.placed.take state.started.length := by
  have taken := popped_take (kept.invariant noWrap) kept.recorded.inTurn
  rw [kept.recorded.started, List.length_map]
  exact taken

/-- In every run of the transaction thread and the threads that bring it blocks, until a counter
of the queue wraps. -/
theorem blocks_delivered {capacity align : Word} {memory : Nat → ThreadQueueSlot β type}
    {queue : ThreadQueue β type} (created : createTqueue capacity align memory = some queue)
    (twoLe : 2 ≤ capacity.toNat) {actions : List (Action τ β type)} {final : State τ β type}
    (ran : run (step txThread) (initial queue) actions = some final)
    (noWrap : NoWrap final.queue) : Delivered txThread actions final := by
  have start : Kept txThread (initial queue : State τ β type) := kept_initial created twoLe
  have kept := kept_run start ran
  have order := kept.order noWrap
  have claimed := kept.recorded.claimed
  have length : final.placed.length = final.queue.history.reserved.length := List.length_map ..
  refine ⟨fun thread other => ?_, ?_, fun rest loop unclaimed => ?_, fun rest => ?_⟩
  · rw [placesOf_run start other ran]
    exact List.nil_append _
  · rw [order]
    exact List.take_prefix ..
  · have spins := kept.counted.spins rest loop
    have rounds : final.rounds txThread = rest + 1 := by
      rw [State.rounds, loop]
      exact if_neg (by rw [unclaimed]; decide)
    omega
  · have balance := kept.counted.balance rest.unkilled
    have idle : final.queue.threads txThread = .idle :=
      kept.stands.idle (by rw [rest.outside]; rfl) fun _ => by rw [rest.waiting]; rfl
    have none : tally (fun thread => final.owes thread = true) = 0 := by
      apply tally_eq_zero
      intro thread owes
      rw [State.owes, rest.outside thread] at owes
      cases owes
    rw [State.signals, none, rest.spent, State.rounds, rest.waiting] at balance
    rw [idle] at claimed
    have all : final.placed.length ≤ final.started.length := by
      rw [length, balance, claimed]
      exact Nat.le_refl _
    rw [order, List.take_of_length_le all]

/-- A producer, which is `true`, places a block and signals. -/
def samplePlace (block : Bool) : List (Action Bool Bool 1) :=
  [.add true fun _ => block, .push true] ++ List.replicate 3 (.advance true true) ++
    [.copyByte true ⟨0, Nat.one_pos⟩, .advance true true, .signal true]

/-- The transaction thread, which is `false`, wakes up for one block, and executes it. -/
def sampleRound : List (Action Bool Bool 1) :=
  [.test, .wake, .next, .pop fun _ => false] ++ List.replicate 3 (.advance false true) ++
    [.copyByte false ⟨0, Nat.one_pos⟩, .advance false true, .finish, .next]

theorem sample_created : createTqueue 2 8 (fun index => ⟨BitVec.ofNat 64 index, fun _ => false⟩) =
    some Io.sampleQueue := by
  let memory : Nat → ThreadQueueSlot Bool 1 := fun index => ⟨BitVec.ofNat 64 index, fun _ => false⟩
  have kept : ∀ index, initState memory index = memory := fun _ => Function.update_eq_self ..
  have slots : createTqueue 2 8 memory =
      some ⟨0, 0, initState (initState memory 0) 1, 2⟩ := rfl
  rw [slots, kept, kept]
  rfl

/-- One block after the other. -/
theorem blocks_delivered_in_turn :
    ∃ final, run (step false) (initial Io.sampleQueue)
        (samplePlace true ++ sampleRound ++ samplePlace false ++ sampleRound) = some final ∧
      Delivered false (samplePlace true ++ sampleRound ++ samplePlace false ++ sampleRound)
        final := by
  have counted : (run (step false) (initial Io.sampleQueue)
      (samplePlace true ++ sampleRound ++ samplePlace false ++ sampleRound)).map
      (fun final => decide (NoWrap final.queue)) = some true := by
    decide +kernel
  obtain ⟨final, ran, small⟩ := Option.map_eq_some_iff.mp counted
  exact ⟨final, ran, blocks_delivered sample_created (by decide) ran (of_decide_eq_true small)⟩

/-- When the transaction thread has ended and nobody is at work, `free_transaction_blocks` ends and
removes exactly the blocks that were not executed. -/
theorem blocks_freed {capacity align : Word} {memory : Nat → ThreadQueueSlot β type}
    {queue : ThreadQueue β type} (created : createTqueue capacity align memory = some queue)
    (twoLe : 2 ≤ capacity.toNat) {actions : List (Action τ β type)} {final : State τ β type}
    (ran : run (step txThread) (initial queue) actions = some final)
    (noWrap : NoWrap final.queue) (ended : final.loop = .ended)
    (outside : ∀ thread, final.callers thread = .outside) {turns : Nat}
    (enough : final.placed.length < turns) :
    ∃ left, freeTransactionBlocks turns final.queue.queue = some left ∧
      final.executed ++ left = final.placed := by
  have start : Kept txThread (initial queue : State τ β type) := kept_initial created twoLe
  have kept := kept_run start ran
  have order := kept.order noWrap
  have claimed := kept.recorded.claimed
  have idle : ∀ thread, final.queue.threads thread = .idle := by
    intro thread
    apply kept.stands.idle
    · rw [outside thread]
      rfl
    · intro _
      rw [ended]
      rfl
  have stores := stores_rest (kept.invariant noWrap) noWrap idle
  have executed : final.started = final.executed := by
    rw [State.started, ended]
    exact List.append_nil _
  rw [idle txThread] at claimed
  have same : final.queue.history.claimed.length = final.executed.length := by
    rw [claimed, executed]
    rfl
  rw [executed] at order
  refine ⟨_, freeTransactionBlocks_stores stores ?_, ?_⟩
  · rw [List.length_drop]
    exact Nat.lt_of_le_of_lt (Nat.sub_le ..) enough
  · rw [same]
    nth_rewrite 1 [order]
    exact List.take_append_drop ..

/-- The loop has ended, and nobody is at work. -/
def stopped (state : State Bool Bool 1) : Bool :=
  match state.loop, state.callers false, state.callers true with
  | .ended, .outside, .outside => true
  | _, _, _ => false

theorem of_stopped {state : State Bool Bool 1} (stops : stopped state = true) :
    state.loop = .ended ∧ ∀ thread, state.callers thread = .outside := by
  unfold stopped at stops
  split at stops
  · next ended first second =>
      refine ⟨ended, fun thread => ?_⟩
      cases thread with
      | false => exact first
      | true => exact second
  · cases stops

/-- The thread is destroyed with its second block in the queue. -/
def sampleDestroyed : List (Action Bool Bool 1) :=
  samplePlace true ++ sampleRound ++ samplePlace false ++ [.kill true, .signal true, .test]

theorem blocks_freed_second :
    ∃ final left, run (step false) (initial Io.sampleQueue) sampleDestroyed = some final ∧
      freeTransactionBlocks 3 final.queue.queue = some left ∧
      final.executed ++ left = final.placed := by
  have counted : (run (step false) (initial Io.sampleQueue) sampleDestroyed).map (fun final =>
      stopped final && decide (NoWrap final.queue ∧ final.placed.length < 3)) = some true := by
    decide +kernel
  obtain ⟨final, ran, checked⟩ := Option.map_eq_some_iff.mp counted
  rw [Bool.and_eq_true, decide_eq_true_eq] at checked
  obtain ⟨stops, noWrap, few⟩ := checked
  obtain ⟨ended, outside⟩ := of_stopped stops
  obtain ⟨left, freed, all⟩ := blocks_freed sample_created (by decide) ran noWrap ended outside few
  exact ⟨final, left, ran, freed, all⟩

end Runs

end TellyDB.Transactions
