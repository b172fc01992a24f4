import TellyDB.Io.Delivery
import TellyDB.Utils.ThreadQueue.Safety
import TellyDB.Utils.ThreadQueue.Sequential

/-!
Owns the way of the requests through the queue of an I/O thread: what was asked for is reserved,
and popped once, as long as no push finds the queue full. `add_io_request` gives its caller the
index of the I/O thread whether `push_tqueue` found room or not.
-/

namespace TellyDB.Io

open Lib Lib.Transition Utils Utils.ThreadQueue

variable {τ β : Type} {type : Nat} [DecidableEq τ]

/-! ## Requests and positions -/

/-- The element of a push that has not reserved a position. -/
def ThreadState.unplaced : ThreadState β type → Option (Element β type)
  | .pushLoadEnd value | .pushLoadSeq value _ | .pushTest value _ _ => some value
  | _ => none

/-- The push will return `NULL`: the queue was full when it looked. -/
def ThreadState.refused : ThreadState β type → Bool
  | .pushTest _ position seq => decide ((seq - position).toInt < 0)
  | _ => false

/-- The pushes of a thread, in order: those that reserved a position, and the one under way. -/
def pushesOf (thread : τ) (queue : ThreadQueue.State τ β type) : List (τ × Element β type) :=
  (queue.history.reserved.filter fun entry => entry.1 = thread) ++
    ((ThreadState.unplaced (queue.threads thread)).map fun value => (thread, value)).toList

/-- The push that an action calls. -/
def calledPush : ThreadQueue.Action τ β type → Option (τ × Element β type)
  | .callPush thread value => some (thread, value)
  | _ => none

section Queue

variable {state next : ThreadQueue.State τ β type} {thread mover : τ}

/-- A step that reserves nothing, and moves one thread that keeps what it has to place. -/
theorem pushesOf_moved {moved : ThreadState β type}
    (reserved : next.history.reserved = state.history.reserved)
    (threads : next.threads = Function.update state.threads mover moved)
    (kept : ThreadState.unplaced moved = ThreadState.unplaced (state.threads mover)) :
    pushesOf thread next = pushesOf thread state := by
  rw [pushesOf, pushesOf, reserved, threads]
  by_cases same : thread = mover
  · rw [same, Function.update_self, kept]
  · rw [Function.update_of_ne same]

theorem pushesOf_call {value : Element β type} (idle : state.threads mover = .idle) :
    pushesOf thread (state.setThread mover (.pushLoadEnd value)) =
      pushesOf thread state ++ [(mover, value)].filter fun entry => entry.1 = thread := by
  by_cases same : mover = thread
  · subst same
    simp [pushesOf, idle, ThreadState.unplaced, State.setThread]
  · simp [pushesOf, State.setThread, Function.update_of_ne (Ne.symm same), same]

theorem pushesOf_reserve {value : Element β type} {position seq : Word}
    (testing : state.threads mover = .pushTest value position seq) :
    pushesOf thread (reserve state mover value position) = pushesOf thread state := by
  by_cases same : mover = thread
  · subst same
    simp [pushesOf, testing, ThreadState.unplaced, reserve, State.setThread]
  · simp [pushesOf, reserve, State.setThread, Function.update_of_ne (Ne.symm same), same]

/-- A step of the queue loses no push, unless it finds the queue full. -/
theorem pushesOf_step {action : ThreadQueue.Action τ β type} (thread : τ)
    (room : ∀ mover attempted, action = .advance mover attempted →
      ThreadState.refused (state.threads mover) = false)
    (stepped : ThreadQueue.step state action = some next) :
    pushesOf thread next = pushesOf thread state ++
      (calledPush action).toList.filter fun entry => entry.1 = thread := by
  cases action with
  | callPush mover value =>
      rw [ThreadQueue.step] at stepped
      split at stepped
      · next idle =>
          cases stepped
          exact pushesOf_call idle
      · cases stepped
  | callPop mover dst =>
      refine Eq.trans ?_ (List.append_nil _).symm
      rw [ThreadQueue.step] at stepped
      split at stepped
      · next idle =>
          cases stepped
          exact pushesOf_moved rfl rfl (by rw [idle]; rfl)
      · cases stepped
  | copyByte mover byte =>
      refine Eq.trans ?_ (List.append_nil _).symm
      rw [ThreadQueue.step] at stepped
      split at stepped
      · next copying =>
          cases stepped
          exact pushesOf_moved rfl rfl (by rw [copying]; rfl)
      · next copying =>
          cases stepped
          exact pushesOf_moved rfl rfl (by rw [copying]; rfl)
      · cases stepped
  | advance mover attempted =>
      refine Eq.trans ?_ (List.append_nil _).symm
      have room := room mover attempted rfl
      rw [ThreadQueue.step, advance] at stepped
      cases stands : state.threads mover with
      | idle =>
          rw [stands] at stepped
          cases stepped
      | pushLoadEnd value =>
          rw [stands] at stepped
          cases stepped
          exact pushesOf_moved rfl rfl (by rw [stands]; rfl)
      | pushLoadSeq value position =>
          rw [stands] at stepped
          cases stepped
          exact pushesOf_moved rfl rfl (by rw [stands]; rfl)
      | pushTest value position seq =>
          rw [stands] at stepped room
          have notFull : ¬(seq - position).toInt < 0 := of_decide_eq_false room
          simp only at stepped
          split_ifs at stepped
          · cases stepped
            exact pushesOf_reserve stands
          · cases stepped
            exact pushesOf_moved rfl rfl (by rw [stands]; rfl)
          · cases stepped
            exact pushesOf_moved rfl rfl (by rw [stands]; rfl)
      | pushCopy value position copied =>
          rw [stands] at stepped
          simp only at stepped
          split_ifs at stepped
          cases stepped
          exact pushesOf_moved rfl rfl (by rw [stands]; rfl)
      | popLoadAt dst =>
          rw [stands] at stepped
          cases stepped
          exact pushesOf_moved rfl rfl (by rw [stands]; rfl)
      | popLoadSeq dst position =>
          rw [stands] at stepped
          cases stepped
          exact pushesOf_moved rfl rfl (by rw [stands]; rfl)
      | popTest dst position seq =>
          rw [stands] at stepped
          simp only at stepped
          split_ifs at stepped
          all_goals
            cases stepped
            exact pushesOf_moved rfl rfl (by rw [stands]; rfl)
      | popCopy dst position copied =>
          rw [stands] at stepped
          simp only at stepped
          split_ifs at stepped
          cases stepped
          exact pushesOf_moved rfl rfl (by rw [stands]; rfl)

end Queue

/-! ## What a step does -/

/-- The step of a thread inside the queue as one of the system. -/
def ofQueue : ThreadQueue.Action τ β type → Action τ β type
  | .callPush thread operation => .request thread operation
  | .callPop _ operation => .next operation
  | .advance thread attempted => .advance thread attempted
  | .copyByte thread byte => .copyByte thread byte

section Steps

variable {ioThread : τ} {state next : State τ β type}

/-- What each step does to the queue, the callers and the loop. -/
inductive StepEffect (ioThread : τ) (state : State τ β type) :
    Action τ β type → State τ β type → Prop where
  | request {thread : τ} {operation : Element β type} {queue : ThreadQueue.State τ β type}
      (outside : state.callers thread = .outside)
      (called : ThreadQueue.step state.queue (.callPush thread operation) = some queue) :
      StepEffect ioThread state (.request thread operation) { state with
        queue := queue
        callers := Function.update state.callers thread .pushing }
  | push {thread : τ} {action : ThreadQueue.Action τ β type} {queue : ThreadQueue.State τ β type}
      (inside : Inside thread action) (pushing : state.callers thread = .pushing)
      (stepped : ThreadQueue.step state.queue action = some queue) :
      StepEffect ioThread state (ofQueue action)
        (returnPush { state with queue := queue } thread)
  | pop {rest : Nat} {action : ThreadQueue.Action τ β type} {queue : ThreadQueue.State τ β type}
      (inside : Inside ioThread action) (popping : state.loop = .popping rest)
      (outside : state.callers ioThread = .outside)
      (stepped : ThreadQueue.step state.queue action = some queue) :
      StepEffect ioThread state (ofQueue action)
        (returnPop { state with queue := queue } ioThread rest
          (ThreadState.claimed (state.queue.threads ioThread)))
  | signal {thread : τ} (pushed : state.callers thread = .pushed) :
      StepEffect ioThread state (.signal thread) { state with
        notifier := state.notifier + 1
        callers := Function.update state.callers thread .outside }
  | wake (waiting : state.loop = .waiting) :
      StepEffect ioThread state .wake { state with notifier := 0, loop := .head state.notifier }
  | wait {operation : Element β type} (head : state.loop = .head 0) :
      StepEffect ioThread state (.next operation) { state with loop := .waiting }
  | next {operation : Element β type} {rest : Nat} {queue : ThreadQueue.State τ β type}
      (head : state.loop = .head (rest + 1))
      (called : ThreadQueue.step state.queue (.callPop ioThread operation) = some queue) :
      StepEffect ioThread state (.next operation)
        { state with queue := queue, loop := .popping rest }
  | finish {rest : Nat} (executing : state.loop = .executing rest) :
      StepEffect ioThread state .finish { state with loop := .head rest }

theorem queueStep_effect {thread : τ} {action : ThreadQueue.Action τ β type}
    (inside : Inside thread action) (stepped : queueStep ioThread state thread action = some next) :
    StepEffect ioThread state (ofQueue action) next := by
  rw [queueStep] at stepped
  split at stepped
  · rename_i pushing
    obtain ⟨queue, queued, returned⟩ := Option.bind_eq_some_iff.mp stepped
    cases returned
    exact .push inside pushing queued
  · cases stepped
  · rename_i outside
    split at stepped
    · rename_i rest popping
      split_ifs at stepped with same
      subst same
      obtain ⟨queue, queued, returned⟩ := Option.bind_eq_some_iff.mp stepped
      cases returned
      exact .pop inside popping outside queued
    · cases stepped

theorem step_effect {action : Action τ β type} (stepped : step ioThread state action = some next) :
    StepEffect ioThread state action next := by
  cases action with
  | request thread operation =>
      rw [step] at stepped
      split_ifs at stepped with may
      obtain ⟨queue, called, stepped⟩ := Option.bind_eq_some_iff.mp stepped
      cases stepped
      refine .request ?_ called
      unfold mayRequest at may
      split at may
      · assumption
      · assumption
      · cases may
  | advance thread attempted => exact queueStep_effect (.advance attempted) stepped
  | copyByte thread byte => exact queueStep_effect (.copyByte byte) stepped
  | signal thread =>
      rw [step] at stepped
      split at stepped
      · rename_i pushed
        cases stepped
        exact .signal pushed
      · cases stepped
  | wake =>
      rw [step] at stepped
      split at stepped
      · rename_i waiting
        split_ifs at stepped
        cases stepped
        exact .wake waiting
      · cases stepped
  | next operation =>
      rw [step] at stepped
      split at stepped
      · rename_i head
        cases stepped
        exact .wait head
      · rename_i rest head
        obtain ⟨queue, called, stepped⟩ := Option.bind_eq_some_iff.mp stepped
        cases stepped
        exact .next head called
      · cases stepped
  | finish =>
      rw [step] at stepped
      split at stepped
      · rename_i rest executing outside
        cases stepped
        exact .finish executing
      · cases stepped

/-! ## Placing requests -/

/-- The thread does not find the queue full at its next step. -/
def HasRoom (state : State τ β type) : Action τ β type → Prop
  | .advance thread _ => ThreadState.refused (state.queue.threads thread) = false
  | _ => True

/-- The request that an action makes. -/
def requestOf : Action τ β type → Option (τ × Element β type)
  | .request thread operation => some (thread, operation)
  | _ => none

/-- The requests of a run, in order. -/
def requested (actions : List (Action τ β type)) : List (τ × Element β type) :=
  actions.filterMap requestOf

@[simp] theorem returnPush_queue (thread : τ) : (returnPush state thread).queue = state.queue := by
  unfold returnPush
  split <;> rfl

omit [DecidableEq τ] in
@[simp] theorem returnPop_queue (rest : Nat) (copied : Bool) :
    (returnPop state ioThread rest copied).queue = state.queue := by
  unfold returnPop
  split <;> rfl

/-- A step inside of a push or a pop is no request. -/
theorem pushesOf_inside {thread mover : τ} {action : ThreadQueue.Action τ β type}
    {queue : ThreadQueue.State τ β type} (inside : Inside mover action)
    (room : HasRoom state (ofQueue action))
    (stepped : ThreadQueue.step state.queue action = some queue) :
    pushesOf thread queue = pushesOf thread state.queue ∧
      requestOf (ofQueue action : Action τ β type) = none := by
  cases inside with
  | advance attempted =>
      refine ⟨?_, rfl⟩
      have placed := pushesOf_step thread ?_ stepped
      · simpa [calledPush] using placed
      · intro other attempted same
        cases same
        exact room
  | copyByte byte =>
      refine ⟨?_, rfl⟩
      have placed := pushesOf_step thread ?_ stepped
      · simpa [calledPush] using placed
      · intro other attempted same
        cases same

/-- A step that finds room adds its request to the pushes of its thread. -/
theorem StepEffect.pushesOf {action : Action τ β type}
    (effect : StepEffect ioThread state action next) (room : HasRoom state action) (thread : τ) :
    Io.pushesOf thread next.queue = Io.pushesOf thread state.queue ++
      (requestOf action).toList.filter fun entry => entry.1 = thread := by
  cases effect with
  | request outside called =>
      exact pushesOf_step thread (fun _ _ same => by cases same) called
  | push inside pushing stepped =>
      obtain ⟨placed, none⟩ := pushesOf_inside inside room stepped
      rw [returnPush_queue, placed, none]
      exact (List.append_nil _).symm
  | pop inside popping outside stepped =>
      obtain ⟨placed, none⟩ := pushesOf_inside inside room stepped
      rw [returnPop_queue, placed, none]
      exact (List.append_nil _).symm
  | next head called =>
      exact pushesOf_step thread (fun _ _ same => by cases same) called
  | signal | wake | wait | finish => exact (List.append_nil _).symm

/-- In a run that finds room every request becomes a push. -/
theorem pushesOf_run {actions : List (Action τ β type)} {final : State τ β type} {thread : τ}
    (room : Guarded (step ioThread) HasRoom state actions)
    (ran : run (step ioThread) state actions = some final) :
    Io.pushesOf thread final.queue = Io.pushesOf thread state.queue ++
      (requested actions).filter fun entry => entry.1 = thread := by
  induction actions generalizing state with
  | nil =>
      cases ran
      exact (List.append_nil _).symm
  | cons action rest inductionHypothesis =>
      obtain ⟨next, stepped, ran⟩ := run_cons_eq_some.mp ran
      have first := (step_effect stepped).pushesOf room.1 thread
      rw [inductionHypothesis (room.2 next stepped) ran, first, List.append_assoc,
        ← List.filter_append]
      congr 2
      cases asked : requestOf action <;> simp [requested, asked]

/-! ## Threads at rest -/

/-- A thread outside of `push_tqueue` and `pop_tqueue` has no step to take in the queue. -/
def Idle (ioThread : τ) (state : State τ β type) : Prop :=
  ∀ thread, state.callers thread ≠ .pushing →
    (thread = ioThread → ∀ rest, state.loop ≠ .popping rest) →
    state.queue.threads thread = .idle

omit [DecidableEq τ] in
theorem Inside.within {thread : τ} {action : ThreadQueue.Action τ β type}
    (inside : Inside thread action) : Within thread action := by
  cases inside with
  | advance => rfl
  | copyByte => rfl

/-- A thread outside of a push and a pop has no step inside of one. -/
theorem inside_idle {thread : τ} {action : ThreadQueue.Action τ β type}
    {state : ThreadQueue.State τ β type} (inside : Inside thread action)
    (idle : state.threads thread = .idle) : ThreadQueue.step state action = none := by
  cases inside with
  | advance attempted => rw [ThreadQueue.step, advance, idle]
  | copyByte byte => rw [ThreadQueue.step, idle]

/-- A step inside of a push or a pop moves its own thread only. -/
theorem inside_frame {thread other : τ} {action : ThreadQueue.Action τ β type}
    {state next : ThreadQueue.State τ β type} (inside : Inside thread action)
    (stepped : ThreadQueue.step state action = some next) (different : other ≠ thread) :
    next.threads other = state.threads other := by
  cases stands : state.threads thread with
  | idle =>
      rw [inside_idle inside stands] at stepped
      cases stepped
  | pushLoadEnd | pushLoadSeq | pushTest | pushCopy =>
      exact (push_step inside (by rw [stands]; trivial) stepped).others other different
  | popLoadAt | popLoadSeq | popTest | popCopy =>
      exact (pop_step inside (by rw [stands]; trivial) stepped).others other different

omit [DecidableEq τ] in
/-- Outside of a pop only callers work on the queue. -/
theorem Idle.of_not_popping (idle : Idle ioThread state)
    (working : ∀ rest, state.loop ≠ .popping rest) (thread : τ)
    (notPushing : state.callers thread ≠ .pushing) : state.queue.threads thread = .idle :=
  idle thread notPushing fun _ => working

theorem StepEffect.idle {action : Action τ β type}
    (effect : StepEffect ioThread state action next) (idle : Idle ioThread state) :
    Idle ioThread next := by
  intro thread notPushing notPopping
  cases effect with
  | @request mover operation queue outside called =>
      by_cases same : thread = mover
      · rw [same] at notPushing
        exact absurd (Function.update_self ..) notPushing
      · have callers : Function.update state.callers mover .pushing thread = state.callers thread :=
          Function.update_of_ne same ..
        show queue.threads thread = .idle
        rw [callPush_step called, State.setThread_of_ne _ same]
        exact idle thread (callers ▸ notPushing) notPopping
  | @push mover action queue inside pushing stepped =>
      have returned : returnPush { state with queue := queue } mover =
        returnPush { state with queue := queue } mover := rfl
      obtain ⟨moved, loop, -, callers⟩ := returnPush_cases returned
      rw [moved]
      rw [loop] at notPopping
      by_cases same : thread = mover
      · subst same
        rcases callers with ⟨-, callers⟩ | ⟨returned, -⟩
        · rw [callers] at notPushing
          exact absurd pushing notPushing
        · exact returned
      · rw [inside_frame inside stepped same]
        apply idle thread _ notPopping
        rcases callers with ⟨-, callers⟩ | ⟨-, callers⟩
        · rw [callers] at notPushing
          exact notPushing
        · rw [callers, Function.update_of_ne same] at notPushing
          exact notPushing
  | @pop rest action queue inside popping outside stepped =>
      let copied := ThreadState.claimed (state.queue.threads ioThread)
      have returned : returnPop { state with queue := queue } ioThread rest copied =
        returnPop { state with queue := queue } ioThread rest copied := rfl
      obtain ⟨moved, callers, -, loop⟩ := returnPop_cases returned
      rw [moved]
      rw [callers] at notPushing
      by_cases same : thread = ioThread
      · rcases loop with ⟨-, loop⟩ | ⟨returned, -⟩
        · exact absurd (loop.trans popping) (notPopping same rest)
        · rw [same]
          exact returned
      · rw [inside_frame inside stepped same]
        exact idle thread notPushing fun isIo => absurd isIo same
  | @signal mover pushed =>
      apply idle thread _ notPopping
      by_cases same : thread = mover
      · rw [same, pushed]
        decide
      · have callers : Function.update state.callers mover .outside thread = state.callers thread :=
          Function.update_of_ne same ..
        exact callers ▸ notPushing
  | wake waiting => exact idle.of_not_popping (by simp [waiting]) thread notPushing
  | wait head => exact idle.of_not_popping (by simp [head]) thread notPushing
  | @next operation rest queue head called =>
      have apart : thread ≠ ioThread := fun same => notPopping same rest rfl
      show queue.threads thread = .idle
      rw [callPop_step called, State.setThread_of_ne _ apart]
      exact idle thread notPushing fun same => absurd same apart
  | finish executing => exact idle.of_not_popping (by simp [executing]) thread notPushing

/-- While no counter has wrapped, the queue keeps its invariant. -/
theorem StepEffect.invariant {action : Action τ β type}
    (effect : StepEffect ioThread state action next)
    (held : NoWrap state.queue → Invariant state.queue) (noWrap : NoWrap next.queue) :
    Invariant next.queue := by
  have stepped : ∀ {queueAction} {queue : ThreadQueue.State τ β type},
      ThreadQueue.step state.queue queueAction = some queue → NoWrap queue → Invariant queue := by
    intro queueAction queue stepped noWrap
    have effect := ThreadQueue.step_effect stepped
    exact effect.invariant noWrap (held (effect.noWrap noWrap))
  cases effect with
  | request outside called => exact stepped called noWrap
  | push inside pushing queued =>
      rw [returnPush_queue] at noWrap ⊢
      exact stepped queued noWrap
  | pop inside popping outside queued =>
      rw [returnPop_queue] at noWrap ⊢
      exact stepped queued noWrap
  | next head called => exact stepped called noWrap
  | signal | wake | wait | finish => exact held noWrap

end Steps

/-! ## Delivery -/

/-- All threads came to rest. -/
structure AtRest (state : State τ β type) : Prop where
  waiting : state.loop = .waiting
  spent : state.notifier = 0
  outside : ∀ thread, state.callers thread = .outside

/-- No request of the run is lost: each has a position of the queue unless its push is under way,
no position is popped twice or with another operation, and at rest all have been popped. -/
structure Delivered (actions : List (Action τ β type)) (final : State τ β type) : Prop where
  placed : ∀ thread, pushesOf thread final.queue =
    (requested actions).filter fun entry => entry.1 = thread
  once : (returned final.queue).Nodup
  popped : ∀ record ∈ final.queue.history.popped, ∃ producer,
    final.queue.history.reserved[record.position.toNat]? = some (producer, record.value)
  rest : AtRest final →
    (final.queue.history.popped.map Popped.value).Perm ((requested actions).map Prod.snd)

section Rest

variable {queue : ThreadQueue.State τ β type}

omit [DecidableEq τ] in
/-- With no thread at work, every claimed position has been returned. -/
theorem returned_perm (invariant : Invariant queue) (idle : ∀ thread, queue.threads thread = .idle)
    (emptied : queue.history.reserved.length ≤ queue.history.claimed.length) :
    (returned queue).Perm (List.range queue.history.reserved.length) := by
  rw [List.perm_ext_iff_of_nodup invariant.returned_nodup List.nodup_range]
  intro position
  rw [List.mem_range]
  constructor
  · intro left
    obtain ⟨record, member, rfl⟩ := List.mem_map.mp left
    obtain ⟨entry, held, -⟩ := Option.map_eq_some_iff.mp (invariant.returned_reserved record member)
    exact (List.getElem?_eq_some_iff.mp held).1
  · intro reserved
    by_cases recent : queue.history.reserved.length ≤ position + queue.queue.capacity.toNat
    · cases invariant.stage position reserved recent with
      | writing unclaimed seq writer =>
          obtain ⟨thread, value, word, copied, copying, -⟩ := writer
          rw [idle thread] at copying
          cases copying
      | full unclaimed seq data => omega
      | reading claimed seq reader data =>
          obtain ⟨thread, dst, word, copied, copying, -⟩ := reader
          rw [idle thread] at copying
          cases copying
      | free claimed seq left => exact left
    · exact invariant.retired position (by omega)

omit [DecidableEq τ] in
/-- What was popped is what was pushed, if every position was returned. -/
theorem popped_perm (invariant : Invariant queue)
    (all : (returned queue).Perm (List.range queue.history.reserved.length)) :
    (queue.history.popped.map Popped.value).Perm (queue.history.reserved.map Prod.snd) := by
  have values : (queue.history.popped.map Popped.value).map some =
      (returned queue).map fun position => (queue.history.reserved[position]?).map Prod.snd := by
    rw [returned, List.map_map, List.map_map]
    apply List.map_congr_left
    intro record member
    exact (invariant.returned_reserved record member).symm
  have positions : (List.range queue.history.reserved.length).map
      (fun position => (queue.history.reserved[position]?).map Prod.snd) =
      (queue.history.reserved.map Prod.snd).map some := by
    apply List.ext_getElem
    · simp
    · intro position reserved _
      rw [List.length_map, List.length_range] at reserved
      simp [reserved]
  have same := all.map fun position => (queue.history.reserved[position]?).map Prod.snd
  rw [positions, ← values] at same
  exact (List.map_perm_map_iff (Option.some_injective _)).mp same

/-- Two lists with the same entries for every thread are permutations of each other. -/
theorem perm_of_filter_eq {first second : List (τ × Element β type)}
    (same : ∀ thread, (first.filter fun entry => entry.1 = thread) =
      second.filter fun entry => entry.1 = thread) : first.Perm second := by
  classical
  rw [List.perm_iff_count]
  intro entry
  have counted : ∀ entries : List (τ × Element β type),
      (entries.filter fun other => other.1 = entry.1).count entry = entries.count entry :=
    fun _ => List.count_filter (by simp)
  rw [← counted first, same, counted]

end Rest

/-! ## Runs -/

section Runs

variable [Fintype τ] {ioThread : τ} {state next : State τ β type}

/-- What the steps of a run keep. -/
structure Kept (ioThread : τ) (state : State τ β type) : Prop where
  covered : Covered ioThread state
  idle : Idle ioThread state
  invariant : NoWrap state.queue → Invariant state.queue

/-- No request is lost in a run where no push finds the queue full, and where a pop that fails
leaves no more operations behind than signals to come, until a counter wraps. -/
theorem requests_delivered {capacity align : Word} {memory : Nat → ThreadQueueSlot β type}
    {queue : ThreadQueue β type} (created : createTqueue capacity align memory = some queue)
    (twoLe : 2 ≤ capacity.toNat) {actions : List (Action τ β type)} {final : State τ β type}
    (accounted : Guarded (step ioThread) (Accounted ioThread) (initial queue) actions)
    (room : Guarded (step ioThread) HasRoom (initial queue) actions)
    (ran : run (step ioThread) (initial queue) actions = some final)
    (noWrap : NoWrap final.queue) : Delivered actions final := by
  have start : Kept ioThread (initial queue : State τ β type) :=
    ⟨initial_covered queue, fun _ _ _ => rfl, fun _ => initial_invariant created twoLe⟩
  have kept : Kept ioThread final := guarded_run_invariant
    (fun _ _ _ kept accounted stepped =>
      ⟨step_covered kept.covered accounted stepped, (step_effect stepped).idle kept.idle,
        (step_effect stepped).invariant kept.invariant⟩) start accounted ran
  have invariant := kept.invariant noWrap
  have placed : ∀ thread, pushesOf thread final.queue =
      (requested actions).filter fun entry => entry.1 = thread := by
    intro thread
    rw [pushesOf_run room ran]
    exact List.nil_append _
  refine ⟨placed, invariant.safe.once, invariant.safe.pushed, fun rest => ?_⟩
  have idle : ∀ thread, final.queue.threads thread = .idle := by
    intro thread
    apply kept.idle thread
    · rw [rest.outside thread]
      decide
    · intro _ other popping
      rw [rest.waiting] at popping
      cases popping
  have pushed : final.queue.history.reserved.Perm (requested actions) := by
    apply perm_of_filter_eq
    intro thread
    rw [← placed thread, pushesOf, idle thread]
    exact (List.append_nil _).symm
  have emptied := kept.covered.emptied rest.waiting rest.spent rest.outside
  exact (popped_perm invariant (returned_perm invariant idle emptied)).trans
    (pushed.map Prod.snd)

instance (state : State τ β type) (action : Action τ β type) : Decidable (HasRoom state action) :=
  match action with
  | .advance _ _ => inferInstanceAs (Decidable (_ = _))
  | .request _ _ | .copyByte _ _ | .signal _ | .wake | .next _ | .finish =>
      inferInstanceAs (Decidable True)

/-- Two producers that ask one after the other. -/
theorem requests_delivered_in_turn :
    ∃ final, run (step none) (initial sampleQueue) sampleInTurn = some final ∧
      Delivered sampleInTurn final := by
  let memory : Nat → ThreadQueueSlot Bool 1 := fun index => ⟨BitVec.ofNat 64 index, fun _ => false⟩
  have created : createTqueue 2 8 memory = some sampleQueue := by
    have kept : ∀ index, initState memory index = memory := fun _ => Function.update_eq_self ..
    have slots : createTqueue 2 8 memory =
        some ⟨0, 0, initState (initState memory 0) 1, 2⟩ := rfl
    rw [slots, kept, kept]
    rfl
  have counted : (run (step none) (initial sampleQueue) sampleInTurn).map
      (fun final => decide (NoWrap final.queue)) = some true := by
    decide +kernel
  obtain ⟨final, ran, small⟩ := Option.map_eq_some_iff.mp counted
  have accounted : Guarded (step none) (Accounted none) (initial sampleQueue) sampleInTurn := by
    decide +kernel
  have room : Guarded (step none) HasRoom (initial sampleQueue) sampleInTurn := by
    decide +kernel
  exact ⟨final, ran, requests_delivered created (by decide) accounted room ran
    (of_decide_eq_true small)⟩

end Runs

/-! ## A full queue -/

section Full

variable {ioThread thread : τ} {state : State τ β type}

theorem returnPush_busy (busy : state.queue.threads thread ≠ .idle) :
    returnPush state thread = state := by
  unfold returnPush
  split
  · next idle => exact absurd idle busy
  · rfl

theorem returnPush_idle (idle : state.queue.threads thread = .idle) :
    returnPush state thread =
      { state with callers := Function.update state.callers thread .pushed } := by
  unfold returnPush
  rw [idle]

/-- The steps inside of a push, taken in the system. -/
theorem run_inside {actions : List (ThreadQueue.Action τ β type)}
    {queue : ThreadQueue.State τ β type} (pushing : state.callers thread = .pushing)
    (busy : state.queue.threads thread ≠ .idle) (inside : ∀ action ∈ actions, Inside thread action)
    (ran : run ThreadQueue.step state.queue actions = some queue) :
    run (step ioThread) state (actions.map ofQueue) =
      some (returnPush { state with queue := queue } thread) := by
  induction actions generalizing state with
  | nil =>
      cases ran
      rw [returnPush_busy busy]
      rfl
  | cons action rest inductionHypothesis =>
      obtain ⟨reached, stepped, ran⟩ := run_cons_eq_some.mp ran
      rw [List.forall_mem_cons] at inside
      have first : step ioThread state (ofQueue action) =
          some (returnPush { state with queue := reached } thread) := by
        cases inside.1 with
        | advance attempted => simp [ofQueue, step, queueStep, pushing, stepped]
        | copyByte byte => simp [ofQueue, step, queueStep, pushing, stepped]
      rw [List.map_cons, run_cons, first, Option.bind_some]
      by_cases returned : reached.threads thread = .idle
      · cases rest with
        | nil =>
            cases ran
            rfl
        | cons later others =>
            rw [run_cons, inside_idle (inside.2 later List.mem_cons_self) returned] at ran
            cases ran
      · rw [returnPush_busy returned]
        exact inductionHypothesis pushing returned inside.2 ran

/-- A whole call of `add_io_request`, undisturbed. -/
theorem run_request {actions : List (ThreadQueue.Action τ β type)}
    {queue : ThreadQueue.State τ β type} {operation : Element β type}
    (outside : state.callers thread = .outside) (other : thread ≠ ioThread)
    (inside : ∀ action ∈ actions, Inside thread action)
    (ran : run ThreadQueue.step state.queue (.callPush thread operation :: actions) = some queue)
    (returned : queue.threads thread = .idle) :
    run (step ioThread) state (.request thread operation :: actions.map ofQueue ++
      [.signal thread]) = some { state with queue := queue, notifier := state.notifier + 1 } := by
  obtain ⟨called, stepped, ran⟩ := run_cons_eq_some.mp ran
  have may : mayRequest ioThread state thread = true := by
    simp only [mayRequest, outside]
    split
    · rfl
    · exact decide_eq_true other
    · next unreachable _ => exact absurd rfl unreachable
  have busy : called.threads thread ≠ .idle := by
    rw [callPush_step stepped, State.setThread_self]
    simp
  let asked : State τ β type := { state with
    queue := called, callers := Function.update state.callers thread .pushing }
  have first : step ioThread state (.request thread operation) = some asked := by
    simp [step, may, stepped, asked]
  have pushing : asked.callers thread = .pushing := Function.update_self ..
  rw [List.cons_append, run_cons, first, Option.bind_some, run_append,
    run_inside pushing busy inside ran, Option.bind_some, returnPush_idle returned]
  simp [run_cons, step, asked, outside]

/-- A push alone on a full queue, up to its return. -/
def pushRefused (thread : τ) (value : Element β type) : List (ThreadQueue.Action τ β type) :=
  .callPush thread value :: List.replicate 3 (.advance thread true)

theorem run_pushRefused {queue : ThreadQueue.State τ β type} {value : Element β type}
    (idle : queue.threads thread = .idle)
    (full : pushTqueue queue.queue value = some (queue.queue, false)) :
    ∃ next, run ThreadQueue.step queue (pushRefused thread value) = some next ∧
      next.threads thread = .idle ∧ next.history = queue.history := by
  have negative : ((queue.queue.slotAt queue.queue.qend).seq - queue.queue.qend).toInt < 0 := by
    simp only [pushTqueue] at full
    split_ifs at full with offered negative
    · cases (Prod.mk.inj (Option.some.inj full)).2
    · exact negative
  have called : ThreadQueue.step queue (.callPush thread value) =
      some (queue.setThread thread (.pushLoadEnd value)) := by
    simp [ThreadQueue.step, idle]
  have loaded : ThreadQueue.step (queue.setThread thread (.pushLoadEnd value))
      (.advance thread true) =
      some (queue.setThread thread (.pushLoadSeq value queue.queue.qend)) := by
    simp [ThreadQueue.step, advance]
  have tested : ThreadQueue.step (queue.setThread thread (.pushLoadSeq value queue.queue.qend))
      (.advance thread true) = some (queue.setThread thread (.pushTest value queue.queue.qend
        (queue.queue.slotAt queue.queue.qend).seq)) := by
    simp [ThreadQueue.step, advance]
  have refused : ThreadQueue.step (queue.setThread thread (.pushTest value queue.queue.qend
      (queue.queue.slotAt queue.queue.qend).seq)) (.advance thread true) =
      some (queue.setThread thread .idle) := by
    simp only [ThreadQueue.step, advance, State.setThread_self, if_neg negative.ne, if_pos negative,
      State.setThread_setThread]
  refine ⟨queue.setThread thread .idle, ?_, State.setThread_self .., rfl⟩
  simp only [pushRefused, List.replicate, run_cons, called, loaded, tested, refused,
    Option.bind_some, run_nil]

/-- One producer has filled a queue of one-byte operations with `stored`. -/
structure Filling (thread : τ) (state : State τ β 1) (stored : List (Element β 1)) : Prop where
  outside : ∀ other, state.callers other = .outside
  idle : state.queue.threads thread = .idle
  stores : Stores state.queue.queue stored
  reserved : state.queue.history.reserved.length = stored.length

variable {sample : State τ β 1} {stored : List (Element β 1)}

/-- One more request while there is room. -/
theorem Filling.request (filling : Filling thread sample stored) (other : thread ≠ ioThread)
    (room : stored.length < sample.queue.queue.capacity.toNat) (value : Element β 1) :
    ∃ actions next, run (step ioThread) sample actions = some next ∧
      requested actions = [(thread, value)] ∧ Filling thread next (stored ++ [value]) ∧
      next.queue.queue.capacity = sample.queue.queue.capacity := by
  obtain ⟨outside, idle, stores, reserved⟩ := filling
  have offered : (sample.queue.queue.slotAt sample.queue.queue.qend).seq =
      sample.queue.queue.qend := by
    rw [stores.qend]
    exact stores.free _ (Nat.le_refl _) room
  obtain ⟨queue, ran, returned, capacity, -⟩ := run_pushAlone value idle offered
  have alone : ∀ action ∈ (pushAlone thread value).tail, Inside thread action := by
    simp [pushAlone, Inside.advance, Inside.copyByte]
  obtain ⟨accepted, pushed, history⟩ := push_complete idle ran
    (fun action member => (alone action member).within) returned
  obtain ⟨next, taken, holds⟩ := stores.push room value
  rw [taken] at pushed
  cases pushed
  refine ⟨_, _, run_request (outside thread) other alone ran returned, ?_, ?_, capacity⟩
  · rfl
  · exact ⟨outside, returned, holds, by simp [history, reserved]⟩

/-- As many requests as there is room for. -/
theorem Filling.fill (filling : Filling thread sample []) (other : thread ≠ ioThread)
    (value : Element β 1) (count : Nat) (room : count ≤ sample.queue.queue.capacity.toNat) :
    ∃ actions next, run (step ioThread) sample actions = some next ∧
      requested actions = List.replicate count (thread, value) ∧
      Filling thread next (List.replicate count value) ∧
      next.queue.queue.capacity = sample.queue.queue.capacity := by
  induction count with
  | zero => exact ⟨[], sample, rfl, rfl, filling, rfl⟩
  | succ count inductionHypothesis =>
      obtain ⟨actions, reached, ran, asked, filled, capacity⟩ := inductionHypothesis (by omega)
      have place : (List.replicate count value).length < reached.queue.queue.capacity.toNat := by
        rw [List.length_replicate, capacity]
        omega
      obtain ⟨more, next, ranNext, askedNext, filledNext, capacityNext⟩ :=
        filled.request other place value
      refine ⟨actions ++ more, next, ?_, ?_, ?_, capacityNext.trans capacity⟩
      · rw [run_append, ran]
        exact ranNext
      · rw [requested, List.filterMap_append]
        show requested actions ++ requested more = _
        rw [asked, askedNext, List.replicate_succ']
      · rw [List.replicate_succ']
        exact filledNext

/-- A request to a full queue reserves nothing, and its caller goes on. -/
theorem Filling.refuse (filling : Filling thread sample stored) (other : thread ≠ ioThread)
    (full : stored.length = sample.queue.queue.capacity.toNat)
    (several : sample.queue.queue.capacity ≠ 1) (value : Element β 1) :
    ∃ actions next, run (step ioThread) sample actions = some next ∧
      requested actions = [(thread, value)] ∧ (∀ other, next.callers other = .outside) ∧
      next.queue.threads thread = .idle ∧
      next.queue.history.reserved.length = stored.length := by
  obtain ⟨outside, idle, stores, reserved⟩ := filling
  obtain ⟨queue, ran, returned, history⟩ :=
    run_pushRefused idle (stores.push_full full several value)
  have alone : ∀ action ∈ (pushRefused thread value).tail, Inside thread action := by
    simp [pushRefused, Inside.advance]
  refine ⟨_, _, run_request (outside thread) other alone ran returned, rfl, outside, returned, ?_⟩
  show queue.history.reserved.length = _
  rw [history, reserved]

/-- The queue of an I/O thread: `IO_QUEUE_SIZE`. -/
def ioQueueSize : Word := 512

/-- The I/O thread sleeps while a producer asks 513 times: the last request is lost. -/
theorem requests_delivered_fails_when_full : ∃ (queue : ThreadQueue Bool 1)
    (actions : List (Action Bool Bool 1)) (final : State Bool Bool 1),
    createTqueue ioQueueSize 8 (fun _ => ⟨0, fun _ => false⟩) = some queue ∧
      run (step false) (initial queue) actions = some final ∧
      (requested actions).length = 513 ∧ (∀ thread, final.callers thread = .outside) ∧
      final.queue.history.reserved.length = 512 ∧ ¬Delivered actions final := by
  obtain ⟨queue, created⟩ : ∃ queue, createTqueue ioQueueSize 8
      (fun _ => (⟨0, fun _ => false⟩ : ThreadQueueSlot Bool 1)) = some queue := ⟨_, rfl⟩
  obtain ⟨capacity, stores⟩ := stores_create created
  have start : Filling true (initial queue : State Bool Bool 1) [] :=
    ⟨fun _ => rfl, rfl, stores, rfl⟩
  have size : queue.capacity.toNat = 512 := by
    rw [capacity]
    rfl
  have other : true ≠ false := by decide
  obtain ⟨actions, filled, ran, asked, filling, same⟩ :=
    start.fill other (fun _ => true) 512 (Nat.le_of_eq size.symm)
  have sizeFilled : filled.queue.queue.capacity.toNat = 512 := by
    rw [same]
    exact size
  have several : filled.queue.queue.capacity ≠ 1 := by
    intro one
    rw [one] at sizeFilled
    cases sizeFilled
  obtain ⟨more, final, ranLast, askedLast, outside, idle, reserved⟩ :=
    filling.refuse other (by rw [sizeFilled, List.length_replicate]) several fun _ => true
  rw [List.length_replicate] at reserved
  have all : requested (actions ++ more) =
      List.replicate 513 ((true, fun _ => true) : Bool × Element Bool 1) := by
    rw [requested, List.filterMap_append]
    show requested actions ++ requested more = _
    rw [asked, askedLast, ← List.replicate_succ']
  refine ⟨queue, actions ++ more, final, created, ?_, ?_, outside, reserved, ?_⟩
  · rw [run_append, ran]
    exact ranLast
  · rw [all, List.length_replicate]
  · intro delivered
    have placed := congrArg List.length (delivered.placed true)
    rw [all, pushesOf, idle, List.filter_replicate_of_pos (by simp), List.length_replicate,
      List.length_append] at placed
    have bound := List.length_filter_le
      (fun entry : Bool × Element Bool 1 => decide (entry.1 = true)) final.queue.history.reserved
    have none : ((ThreadState.unplaced (.idle : ThreadState Bool 1)).map
      fun value => (true, value)).toList.length = 0 := rfl
    omega

end Full

end TellyDB.Io
