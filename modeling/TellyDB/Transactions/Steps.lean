import TellyDB.Transactions.Thread

/-!
Owns what one step does: in the queue, by the side that takes it, and in the system, with the place
of every thread.
-/

namespace TellyDB.Transactions

open Lib Lib.Transition Utils Utils.ThreadQueue
open Io (Inside PushStep PopStep)

variable {τ β : Type} {type : Nat}

/-! ## Inside the queue -/

/-- The step of a push of `block`, the call of `push_tqueue` included. -/
inductive InPush (thread : τ) (block : Element β type) : ThreadQueue.Action τ β type → Prop where
  | call : InPush thread block (.callPush thread block)
  | inside {action : ThreadQueue.Action τ β type} (inside : Inside thread action) :
      InPush thread block action

/-- The step of a pop, the call of `pop_tqueue` included. -/
inductive InPop (thread : τ) : ThreadQueue.Action τ β type → Prop where
  | call (dst : Element β type) : InPop thread (.callPop thread dst)
  | inside {action : ThreadQueue.Action τ β type} (inside : Inside thread action) :
      InPop thread action

/-- The positions that a thread has claimed and not given back. -/
def ThreadState.held : ThreadState β type → List Word
  | .popCopy _ position _ => [position]
  | _ => []

/-- Every position the consumer claimed is one it popped, or the one it is copying from. -/
def InTurn (consumer : τ) (state : ThreadQueue.State τ β type) : Prop :=
  state.history.claimed.map Prod.snd =
    state.history.popped.map Popped.position ++ ThreadState.held (state.threads consumer)

section Queue

variable [DecidableEq τ] {state next : ThreadQueue.State τ β type} {thread consumer : τ}
  {block : Element β type} {action : ThreadQueue.Action τ β type}

theorem inPush_step (inPush : InPush thread block action)
    (ready : state.threads thread = .idle ∨ Io.ThreadState.pushes (state.threads thread))
    (stepped : ThreadQueue.step state action = some next) : PushStep thread state next := by
  cases inPush with
  | call =>
      rw [ThreadQueue.step] at stepped
      split at stepped
      · next idle =>
          cases stepped
          exact Io.pushStep_move trivial (by rw [idle]; rfl)
      · cases stepped
  | inside inside =>
      rcases ready with idle | pushing
      · rw [Io.inside_idle inside idle] at stepped
        cases stepped
      · exact Io.push_step inside pushing stepped

theorem inPop_step (inPop : InPop thread action)
    (ready : state.threads thread = .idle ∨ Io.ThreadState.pops (state.threads thread))
    (stepped : ThreadQueue.step state action = some next) : PopStep thread state next := by
  cases inPop with
  | call dst =>
      rw [ThreadQueue.step] at stepped
      split at stepped
      · next idle =>
          cases stepped
          exact Io.popStep_move trivial (by rw [idle]; rfl)
      · cases stepped
  | inside inside =>
      rcases ready with idle | popping
      · rw [Io.inside_idle inside idle] at stepped
        cases stepped
      · exact Io.pop_step inside popping stepped

/-- Reservations only grow. -/
theorem reserved_grows (stepped : ThreadQueue.step state action = some next) :
    state.history.reserved.length ≤ next.history.reserved.length := by
  cases ThreadQueue.step_effect stepped with
  | reserve testing current =>
      simp only [reserve, State.setThread, List.length_append]
      exact Nat.le_add_right _ _
  | move | writeByte | publish | claim | readByte | release => exact Nat.le_refl _

/-- What a step of a push records: nothing about pops. -/
theorem inPush_popped (inPush : InPush thread block action)
    (ready : state.threads thread = .idle ∨ Io.ThreadState.pushes (state.threads thread))
    (stepped : ThreadQueue.step state action = some next) :
    next.history.popped = state.history.popped := by
  cases inPush with
  | call =>
      rw [ThreadQueue.step] at stepped
      split at stepped
      · cases stepped
        rfl
      · cases stepped
  | inside inside =>
      rcases ready with idle | pushing
      · rw [Io.inside_idle inside idle] at stepped
        cases stepped
      cases inside with
      | copyByte byte =>
          rw [ThreadQueue.step] at stepped
          split at stepped
          · cases stepped
            rfl
          · cases stepped
            rfl
          · cases stepped
      | advance attempted =>
          rw [ThreadQueue.step, advance] at stepped
          cases stands : state.threads thread with
          | idle | popLoadAt | popLoadSeq | popTest | popCopy =>
              rw [stands] at pushing
              cases pushing
          | pushLoadEnd | pushLoadSeq =>
              rw [stands] at stepped
              cases stepped
              rfl
          | pushTest value position seq =>
              rw [stands] at stepped
              simp only at stepped
              split_ifs at stepped
              all_goals
                cases stepped
                rfl
          | pushCopy value position copied =>
              rw [stands] at stepped
              simp only at stepped
              split_ifs at stepped
              cases stepped
              rfl

omit [DecidableEq τ] in
/-- Outside of a pop a thread holds no position. -/
theorem held_eq_nil {stands : ThreadState β type}
    (outside : stands = .idle ∨ Io.ThreadState.pushes stands) : ThreadState.held stands = [] := by
  cases stands with
  | idle | pushLoadEnd | pushLoadSeq | pushTest | pushCopy => rfl
  | popLoadAt | popLoadSeq | popTest | popCopy => rcases outside with same | pushes <;> contradiction

theorem InTurn.push (inTurn : InTurn consumer state) (inPush : InPush thread block action)
    (ready : state.threads thread = .idle ∨ Io.ThreadState.pushes (state.threads thread))
    (stepped : ThreadQueue.step state action = some next) : InTurn consumer next := by
  have push := inPush_step inPush ready stepped
  have readyNext : next.threads thread = .idle ∨ Io.ThreadState.pushes (next.threads thread) :=
    or_iff_not_imp_left.mpr push.stays
  have same : ThreadState.held (next.threads consumer) =
      ThreadState.held (state.threads consumer) := by
    by_cases consumes : consumer = thread
    · rw [consumes, held_eq_nil ready, held_eq_nil readyNext]
    · rw [push.others consumer consumes]
  rw [InTurn, push.claimed, inPush_popped inPush ready stepped, same]
  exact inTurn

/-- What a step of a pop records: claimed positions are held until they are given back, with the
value that was copied. -/
structure PopRecord (consumer : τ) (state next : ThreadQueue.State τ β type) : Prop where
  inTurn : InTurn consumer state → InTurn consumer next
  busy : next.threads consumer ≠ .idle → next.history.popped = state.history.popped
  returned : next.threads consumer = .idle → next.history.popped.map Popped.value =
    state.history.popped.map Popped.value ++
      (ThreadState.copied (state.threads consumer)).toList

/-- A move of the consumer that keeps what it holds. -/
theorem PopRecord.moved {moved : ThreadState β type}
    (kept : ThreadState.held moved = ThreadState.held (state.threads consumer))
    (quiet : moved ≠ .idle ∨ ThreadState.copied (state.threads consumer) = none) :
    PopRecord consumer state (state.setThread consumer moved) where
  inTurn inTurn := by
    rw [InTurn, State.setThread_self, kept]
    exact inTurn
  busy _ := rfl
  returned idle := by
    rw [State.setThread_self] at idle
    rcases quiet with busy | nothing
    · exact absurd idle busy
    · rw [nothing]
      exact (List.append_nil _).symm

theorem inPop_record (inPop : InPop consumer action)
    (ready : state.threads consumer = .idle ∨ Io.ThreadState.pops (state.threads consumer))
    (stepped : ThreadQueue.step state action = some next) : PopRecord consumer state next := by
  cases inPop with
  | call dst =>
      rw [ThreadQueue.step] at stepped
      split at stepped
      · next idle =>
          cases stepped
          exact .moved (by rw [idle]; rfl) (.inl (by simp))
      · cases stepped
  | inside inside =>
      rcases ready with idle | popping
      · rw [Io.inside_idle inside idle] at stepped
        cases stepped
      cases inside with
      | copyByte byte =>
          rw [ThreadQueue.step] at stepped
          split at stepped
          · next copying =>
              rw [copying] at popping
              cases popping
          · next copying =>
              cases stepped
              exact .moved (by rw [copying]; rfl) (.inl (by simp))
          · cases stepped
      | advance attempted =>
          rw [ThreadQueue.step, advance] at stepped
          cases stands : state.threads consumer with
          | idle | pushLoadEnd | pushLoadSeq | pushTest | pushCopy =>
              rw [stands] at popping
              cases popping
          | popLoadAt | popLoadSeq =>
              rw [stands] at stepped
              cases stepped
              exact .moved (by rw [stands]; rfl) (.inl (by simp))
          | popTest dst position seq =>
              rw [stands] at stepped
              simp only at stepped
              split_ifs at stepped
              · cases stepped
                exact {
                  inTurn := fun inTurn => by
                    rw [InTurn, stands] at inTurn
                    simpa [InTurn, claim, State.setThread, ThreadState.held] using inTurn
                  busy := fun _ => rfl
                  returned := fun idle => by simp [claim] at idle }
              all_goals
                cases stepped
                exact .moved (by rw [stands]; rfl) (.inr (by rw [stands]; rfl))
          | popCopy dst position copied =>
              rw [stands] at stepped
              simp only at stepped
              split_ifs at stepped
              cases stepped
              exact {
                inTurn := fun inTurn => by
                  rw [InTurn, stands] at inTurn
                  simpa [InTurn, release, State.setThread, ThreadState.held] using inTurn
                busy := fun moved => absurd (State.setThread_self ..) moved
                returned := fun _ => by
                  rw [stands]
                  simp [release, State.setThread, ThreadState.copied] }

end Queue

/-! ## What a step does -/

/-- The block that an action brings to `add_transaction`. -/
def addedBy : Action τ β type → Option (τ × Element β type)
  | .add thread block => some (thread, block)
  | _ => none

section Steps

variable [DecidableEq τ] {txThread : τ} {state next : State τ β type}

/-- What each step does to the queue, the callers and the loop. -/
inductive StepEffect (txThread : τ) (state : State τ β type) :
    Action τ β type → State τ β type → Prop where
  | add {thread : τ} {block : Element β type} (outside : state.callers thread = .outside)
      (other : thread ≠ txThread) :
      StepEffect txThread state (.add thread block) { state with
        callers := Function.update state.callers thread (.adding block) }
  | enqueue {block running : Element β type} {rest : Nat}
      (executing : state.loop = .executing running rest)
      (outside : state.callers txThread = .outside) :
      StepEffect txThread state (.enqueue block) { state with
        callers := Function.update state.callers txThread (.enqueueing block) }
  | pushing {thread : τ} {block : Element β type} {action : ThreadQueue.Action τ β type}
      {queue : ThreadQueue.State τ β type} {label : Action τ β type} (silent : addedBy label = none)
      (bringing : (state.callers thread).block = some block) (inPush : InPush thread block action)
      (stepped : ThreadQueue.step state.queue action = some queue)
      (busy : queue.threads thread ≠ .idle) :
      StepEffect txThread state label { state with queue := queue }
  | pushed {thread : τ} {block : Element β type} {action : ThreadQueue.Action τ β type}
      {queue : ThreadQueue.State τ β type} {label : Action τ β type} (silent : addedBy label = none)
      (bringing : (state.callers thread).block = some block) (inPush : InPush thread block action)
      (stepped : ThreadQueue.step state.queue action = some queue)
      (idle : queue.threads thread = .idle) :
      StepEffect txThread state label { state with
        queue := queue
        callers := Function.update state.callers thread ((state.callers thread).returned
          (Io.ThreadState.reserved (state.queue.threads thread))) }
  | popping {rest : Nat} {spins : Bool} {action : ThreadQueue.Action τ β type}
      {queue : ThreadQueue.State τ β type} {label : Action τ β type} (silent : addedBy label = none)
      (loop : state.loop = .popping rest spins) (inPop : InPop txThread action)
      (stepped : ThreadQueue.step state.queue action = some queue)
      (busy : queue.threads txThread ≠ .idle) :
      StepEffect txThread state label { state with queue := queue }
  | popped {rest : Nat} {spins : Bool} {action : ThreadQueue.Action τ β type}
      {queue : ThreadQueue.State τ β type} {label : Action τ β type} (silent : addedBy label = none)
      (loop : state.loop = .popping rest spins) (inPop : InPop txThread action)
      (stepped : ThreadQueue.step state.queue action = some queue)
      (idle : queue.threads txThread = .idle) :
      StepEffect txThread state label { state with
        queue := queue
        loop := Loop.returned rest spins (ThreadState.copied (state.queue.threads txThread)) }
  | signal {thread : τ} (owing : state.callers thread = .placed ∨ state.callers thread = .killing) :
      StepEffect txThread state (.signal thread) { state with
        notifier := state.notifier + 1
        callers := Function.update state.callers thread .outside }
  | kill {thread : τ} (outside : state.callers thread = .outside) (other : thread ≠ txThread) :
      StepEffect txThread state (.kill thread) { state with
        killed := true
        callers := Function.update state.callers thread .killing }
  | test (testing : state.loop = .testing) :
      StepEffect txThread state .test
        { state with loop := if state.killed then .ended else .waiting }
  | wake (waiting : state.loop = .waiting) :
      StepEffect txThread state .wake { state with notifier := 0, loop := .head state.notifier }
  | wait (head : state.loop = .head 0) :
      StepEffect txThread state .next { state with loop := .testing }
  | next {rest : Nat} (head : state.loop = .head (rest + 1)) :
      StepEffect txThread state .next { state with loop := .popping rest !state.killed }
  | finish {block : Element β type} {rest : Nat} (executing : state.loop = .executing block rest)
      (outside : state.callers txThread = .outside) :
      StepEffect txThread state .finish { state with
        loop := .head rest
        executed := state.executed ++ [block] }

/-- A step of a push, as one of the system. -/
theorem push_effect {thread : τ} {block : Element β type} {action : ThreadQueue.Action τ β type}
    {queue : ThreadQueue.State τ β type} {label : Action τ β type} (silent : addedBy label = none)
    (bringing : (state.callers thread).block = some block) (inPush : InPush thread block action)
    (stepped : ThreadQueue.step state.queue action = some queue) :
    StepEffect txThread state label (returnPush { state with queue := queue } thread
      (Io.ThreadState.reserved (state.queue.threads thread))) := by
  unfold returnPush
  split
  · next idle => exact .pushed silent bringing inPush stepped idle
  · next busy => exact .pushing silent bringing inPush stepped busy

/-- A step of a pop, as one of the system. -/
theorem pop_effect {rest : Nat} {spins : Bool} {action : ThreadQueue.Action τ β type}
    {queue : ThreadQueue.State τ β type} {label : Action τ β type} (silent : addedBy label = none)
    (loop : state.loop = .popping rest spins) (inPop : InPop txThread action)
    (stepped : ThreadQueue.step state.queue action = some queue) :
    StepEffect txThread state label (returnPop { state with queue := queue } txThread rest spins
      (ThreadState.copied (state.queue.threads txThread))) := by
  unfold returnPop
  split
  · next idle => exact .popped silent loop inPop stepped idle
  · next busy => exact .popping silent loop inPop stepped busy

theorem queueStep_effect {thread : τ} {action : ThreadQueue.Action τ β type}
    {label : Action τ β type} (silent : addedBy label = none) (inside : Inside thread action)
    (stepped : queueStep txThread state thread action = some next) :
    StepEffect txThread state label next := by
  unfold queueStep at stepped
  split at stepped
  · next block adding =>
      obtain ⟨queue, queued, returned⟩ := Option.bind_eq_some_iff.mp stepped
      cases returned
      have bringing : (state.callers thread).block = some block := by
        rw [adding]
        rfl
      exact push_effect silent bringing (.inside inside) queued
  · next block enqueueing =>
      obtain ⟨queue, queued, returned⟩ := Option.bind_eq_some_iff.mp stepped
      cases returned
      have bringing : (state.callers thread).block = some block := by
        rw [enqueueing]
        rfl
      exact push_effect silent bringing (.inside inside) queued
  · cases stepped
  · cases stepped
  · split at stepped
    · next rest spins loop =>
        split_ifs at stepped with same
        subst same
        obtain ⟨queue, queued, returned⟩ := Option.bind_eq_some_iff.mp stepped
        cases returned
        exact pop_effect silent loop (.inside inside) queued
    · cases stepped

theorem step_effect {action : Action τ β type}
    (stepped : step txThread state action = some next) :
    StepEffect txThread state action next := by
  cases action with
  | add thread block =>
      rw [step] at stepped
      split at stepped
      · next outside =>
          split_ifs at stepped with same
          cases stepped
          exact .add outside same
      · cases stepped
  | enqueue block =>
      rw [step] at stepped
      split at stepped
      · next executing outside =>
          cases stepped
          exact .enqueue executing outside
      · cases stepped
  | push thread =>
      rw [step] at stepped
      split at stepped
      · next block bringing =>
          obtain ⟨queue, called, stepped⟩ := Option.bind_eq_some_iff.mp stepped
          cases stepped
          have moved : queue = state.queue.setThread thread (.pushLoadEnd block) := by
            rw [ThreadQueue.step] at called
            split at called
            · cases called
              rfl
            · cases called
          exact .pushing rfl bringing .call called (by rw [moved]; simp)
      · cases stepped
  | pop dst =>
      rw [step] at stepped
      split at stepped
      · next rest spins loop =>
          obtain ⟨queue, called, stepped⟩ := Option.bind_eq_some_iff.mp stepped
          cases stepped
          have moved : queue = state.queue.setThread txThread (.popLoadAt dst) := by
            rw [ThreadQueue.step] at called
            split at called
            · cases called
              rfl
            · cases called
          exact .popping rfl loop (.call dst) called (by rw [moved]; simp)
      · cases stepped
  | advance thread attempted => exact queueStep_effect rfl (.advance attempted) stepped
  | copyByte thread byte => exact queueStep_effect rfl (.copyByte byte) stepped
  | signal thread =>
      rw [step] at stepped
      split at stepped
      · next placed =>
          unfold signal at stepped
          split at stepped
          · cases stepped
          · cases stepped
            exact .signal (.inl placed)
      · next killing =>
          unfold signal at stepped
          split at stepped
          · cases stepped
          · cases stepped
            exact .signal (.inr killing)
      · cases stepped
  | kill thread =>
      rw [step] at stepped
      split at stepped
      · next outside =>
          split_ifs at stepped with refused
          cases stepped
          exact .kill outside fun same => refused (.inl same)
      · cases stepped
  | test =>
      rw [step] at stepped
      split at stepped
      · next testing =>
          cases stepped
          exact .test testing
      · cases stepped
  | wake =>
      rw [step] at stepped
      split at stepped
      · next waiting =>
          split_ifs at stepped
          cases stepped
          exact .wake waiting
      · cases stepped
  | next =>
      rw [step] at stepped
      split at stepped
      · next head =>
          cases stepped
          exact .wait head
      · next rest head =>
          cases stepped
          exact .next head
      · cases stepped
  | finish =>
      rw [step] at stepped
      split at stepped
      · next block rest executing outside =>
          cases stepped
          exact .finish executing outside
      · cases stepped

/-! ## Where the threads stand -/

/-- What a thread does on the queue, by its place in the source. -/
inductive Role where
  | outside
  | pushing
  | popping

/-- The loop stands in `pop_tqueue`. -/
def Loop.pops : Loop β type → Bool
  | .popping _ _ => true
  | _ => false

/-- The loop stands in `execute_transaction_block`. -/
def Loop.executes : Loop β type → Bool
  | .executing _ _ => true
  | _ => false

def role (txThread : τ) (state : State τ β type) (thread : τ) : Role :=
  if (state.callers thread).block.isSome then .pushing
  else if thread = txThread ∧ state.loop.pops = true then .popping
  else .outside

/-- A thread is at work on the queue only in its role. -/
def Seated : Role → ThreadState β type → Prop
  | .outside, stands => stands = .idle
  | .pushing, stands => stands = .idle ∨ Io.ThreadState.pushes stands
  | .popping, stands => stands = .idle ∨ Io.ThreadState.pops stands

structure Stands (txThread : τ) (state : State τ β type) : Prop where
  seated : ∀ thread, Seated (role txThread state thread) (state.queue.threads thread)
  alone : state.loop.executes = false → state.callers txThread = .outside

omit [DecidableEq τ] in
theorem seated_idle (place : Role) : Seated place (.idle : ThreadState β type) := by
  cases place with
  | outside => rfl
  | pushing => exact .inl rfl
  | popping => exact .inl rfl

theorem role_of_block {thread : τ} {block : Element β type}
    (bringing : (state.callers thread).block = some block) :
    role txThread state thread = .pushing := by
  rw [role, bringing]
  rfl

theorem role_of_outside {thread : τ} (nothing : (state.callers thread).block = none)
    (still : thread = txThread → state.loop.pops = false) :
    role txThread state thread = .outside := by
  have not_both : ¬(thread = txThread ∧ state.loop.pops = true) := fun both => by
    rw [still both.1] at both
    cases both.2
  rw [role, nothing, if_neg not_both]
  rfl

theorem role_of_popping (nothing : (state.callers txThread).block = none)
    (pops : state.loop.pops = true) : role txThread state txThread = .popping := by
  rw [role, nothing, pops]
  simp

theorem role_congr {thread : τ}
    (block : (next.callers thread).block = (state.callers thread).block)
    (loop : thread = txThread → next.loop.pops = state.loop.pops) :
    role txThread next thread = role txThread state thread := by
  rw [role, role, block]
  by_cases same : thread = txThread
  · rw [loop same]
  · simp [same]

theorem Stands.pushing (stands : Stands txThread state) {thread : τ} {block : Element β type}
    (bringing : (state.callers thread).block = some block) :
    state.queue.threads thread = .idle ∨ Io.ThreadState.pushes (state.queue.threads thread) := by
  have seated := stands.seated thread
  rw [role_of_block bringing] at seated
  exact seated

theorem Stands.idle (stands : Stands txThread state) {thread : τ}
    (nothing : (state.callers thread).block = none)
    (still : thread = txThread → state.loop.pops = false) :
    state.queue.threads thread = .idle := by
  have seated := stands.seated thread
  rw [role_of_outside nothing still] at seated
  exact seated

/-- While the loop pops, it brings no block. -/
theorem Stands.outside (stands : Stands txThread state) {rest : Nat} {spins : Bool}
    (loop : state.loop = .popping rest spins) : state.callers txThread = .outside :=
  stands.alone (by rw [loop]; rfl)

theorem Stands.popping (stands : Stands txThread state) {rest : Nat} {spins : Bool}
    (loop : state.loop = .popping rest spins) :
    state.queue.threads txThread = .idle ∨ Io.ThreadState.pops (state.queue.threads txThread) := by
  have seated := stands.seated txThread
  rw [role_of_popping (by rw [stands.outside loop]; rfl) (by rw [loop]; rfl)] at seated
  exact seated

/-- A thread that brings a block while the loop does not execute one is not its own. -/
theorem Stands.apart (stands : Stands txThread state) {thread : τ} {block : Element β type}
    (bringing : (state.callers thread).block = some block)
    (still : state.loop.executes = false) : txThread ≠ thread := by
  rintro rfl
  rw [stands.alone still] at bringing
  cases bringing

/-- One thread moved. -/
theorem Stands.moved (stands : Stands txThread state) {thread : τ}
    (others : ∀ other, other ≠ thread →
      role txThread next other = role txThread state other ∧
        next.queue.threads other = state.queue.threads other)
    (own : Seated (role txThread next thread) (next.queue.threads thread))
    (alone : next.loop.executes = false → next.callers txThread = .outside) :
    Stands txThread next where
  seated other := by
    by_cases same : other = thread
    · rw [same]
      exact own
    · rw [(others other same).1, (others other same).2]
      exact stands.seated other
  alone := alone

/-- Only the loop moved, and stood and stands outside of a pop. -/
theorem Stands.turned (stands : Stands txThread state) (queue : next.queue = state.queue)
    (callers : next.callers = state.callers) (before : state.loop.executes = false)
    (still : state.loop.pops = false) : Stands txThread next := by
  have outside := stands.alone before
  have idle : state.queue.threads txThread = .idle :=
    stands.idle (by rw [outside]; rfl) fun _ => still
  apply @Stands.moved _ _ _ _ _ _ _ stands txThread
  · intro other different
    rw [queue]
    exact ⟨role_congr (by rw [callers]) fun same => absurd same different, rfl⟩
  · rw [queue, idle]
    exact seated_idle _
  · intro _
    rw [callers, outside]

/-- Only the place of one thread that is idle on the queue changed. -/
theorem Stands.recalled (stands : Stands txThread state) {thread : τ} {caller : Caller β type}
    (queue : next.queue = state.queue) (loop : next.loop = state.loop)
    (callers : next.callers = Function.update state.callers thread caller)
    (idle : state.queue.threads thread = .idle)
    (alone : txThread = thread → state.loop.executes = false → caller = .outside) :
    Stands txThread next := by
  apply @Stands.moved _ _ _ _ _ _ _ stands thread
  · intro other different
    rw [queue]
    exact ⟨role_congr (by rw [callers, Function.update_of_ne different]) fun _ => by rw [loop], rfl⟩
  · rw [queue, idle]
    exact seated_idle _
  · intro still
    rw [loop] at still
    rw [callers]
    by_cases own : txThread = thread
    · rw [own, Function.update_self]
      exact alone own still
    · rw [Function.update_of_ne own]
      exact stands.alone still

/-- A thread between its push and its signal, or between its store and its signal. -/
theorem Stands.owing (stands : Stands txThread state) {thread : τ}
    (owing : state.callers thread = .placed ∨ state.callers thread = .killing) :
    state.queue.threads thread = .idle := by
  apply stands.idle
  · rcases owing with placed | killing
    · rw [placed]
      rfl
    · rw [killing]
      rfl
  · rintro rfl
    cases stops : state.loop with
    | popping rest spins =>
        rw [stands.outside stops] at owing
        rcases owing with placed | killing <;> contradiction
    | testing | waiting | head | executing | ended => rfl

theorem StepEffect.stands {action : Action τ β type}
    (effect : StepEffect txThread state action next) (stands : Stands txThread state) :
    Stands txThread next := by
  cases effect with
  | @add thread block outside other =>
      have idle : state.queue.threads thread = .idle :=
        stands.idle (by rw [outside]; rfl) fun same => absurd same other
      exact stands.recalled rfl rfl rfl idle fun same => absurd same.symm other
  | @enqueue block running rest executing outside =>
      have idle : state.queue.threads txThread = .idle :=
        stands.idle (by rw [outside]; rfl) fun _ => by rw [executing]; rfl
      exact stands.recalled rfl rfl rfl idle fun _ still => by
        rw [executing] at still
        cases still
  | @pushing thread block queueAction queue label silent bringing inPush stepped busy =>
      have push := inPush_step inPush (stands.pushing bringing) stepped
      have place : role txThread { state with queue := queue } thread = .pushing :=
        role_of_block bringing
      apply @Stands.moved _ _ _ _ _ _ _ stands thread
      · exact fun another different => ⟨rfl, push.others another different⟩
      · rw [place]
        exact .inr (push.stays busy)
      · exact stands.alone
  | @pushed thread block queueAction queue label silent bringing inPush stepped idle =>
      have push := inPush_step inPush (stands.pushing bringing) stepped
      apply @Stands.moved _ _ _ _ _ _ _ stands thread
      · intro another different
        refine ⟨role_congr ?_ fun _ => rfl, push.others another different⟩
        show (Function.update state.callers thread _ another).block = _
        rw [Function.update_of_ne different]
      · show Seated _ (queue.threads thread)
        rw [idle]
        exact seated_idle _
      · intro still
        show Function.update state.callers thread _ txThread = _
        rw [Function.update_of_ne (stands.apart bringing still)]
        exact stands.alone still
  | @popping rest spins queueAction queue label silent loop inPop stepped busy =>
      have pop := inPop_step inPop (stands.popping loop) stepped
      have place : role txThread { state with queue := queue } txThread = .popping :=
        role_of_popping (by rw [stands.outside loop]; rfl) (by rw [loop]; rfl)
      apply @Stands.moved _ _ _ _ _ _ _ stands txThread
      · exact fun another different => ⟨rfl, pop.others another different⟩
      · rw [place]
        exact .inr (pop.stays busy)
      · exact stands.alone
  | @popped rest spins queueAction queue label silent loop inPop stepped idle =>
      have pop := inPop_step inPop (stands.popping loop) stepped
      apply @Stands.moved _ _ _ _ _ _ _ stands txThread
      · intro another different
        exact ⟨role_congr rfl fun same => absurd same different, pop.others another different⟩
      · show Seated _ (queue.threads txThread)
        rw [idle]
        exact seated_idle _
      · exact fun _ => stands.outside loop
  | @signal thread owing =>
      exact stands.recalled rfl rfl rfl (stands.owing owing) fun _ _ => rfl
  | @kill thread outside other =>
      have idle : state.queue.threads thread = .idle :=
        stands.idle (by rw [outside]; rfl) fun same => absurd same other
      exact stands.recalled rfl rfl rfl idle fun same => absurd same.symm other
  | test testing => exact stands.turned rfl rfl (by rw [testing]; rfl) (by rw [testing]; rfl)
  | wake waiting => exact stands.turned rfl rfl (by rw [waiting]; rfl) (by rw [waiting]; rfl)
  | wait head => exact stands.turned rfl rfl (by rw [head]; rfl) (by rw [head]; rfl)
  | next head => exact stands.turned rfl rfl (by rw [head]; rfl) (by rw [head]; rfl)
  | finish executing outside =>
      have idle : state.queue.threads txThread = .idle :=
        stands.idle (by rw [outside]; rfl) fun _ => by rw [executing]; rfl
      apply @Stands.moved _ _ _ _ _ _ _ stands txThread
      · exact fun another different => ⟨role_congr rfl fun same => absurd same different, rfl⟩
      · show Seated _ (state.queue.threads txThread)
        rw [idle]
        exact seated_idle _
      · exact fun _ => outside

end Steps

end TellyDB.Transactions
