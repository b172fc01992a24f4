import TellyDB.Io.Requests
import Mathlib.Data.Fintype.Option

/-!
Owns the delivery of the operations: as long as a failed pop of the I/O thread
leaves no more operations behind than there are signals still to come, the
queue is empty whenever all threads came to rest.
-/

namespace TellyDB.Io

open Lib Lib.Transition Utils Utils.ThreadQueue

variable {τ β : Type} {type : Nat}

/-! ## Inside the queue -/

/-- A thread stands in `push_tqueue`. -/
def ThreadState.pushes : ThreadState β type → Prop
  | .pushLoadEnd _ | .pushLoadSeq _ _ | .pushTest _ _ _ | .pushCopy _ _ _ => True
  | _ => False

/-- A thread stands in `pop_tqueue`. -/
def ThreadState.pops : ThreadState β type → Prop
  | .popLoadAt _ | .popLoadSeq _ _ | .popTest _ _ _ | .popCopy _ _ _ => True
  | _ => False

/-- A push stands after its compare-and-swap. -/
def ThreadState.reserved : ThreadState β type → Bool
  | .pushCopy _ _ _ => true
  | _ => false

/-- The pop will return false. -/
def ThreadState.fails : ThreadState β type → Bool
  | .popTest _ position seq => decide ((seq - (position + 1)).toInt < 0)
  | _ => false

/-- The steps a thread takes inside `push_tqueue` and `pop_tqueue`. -/
inductive Inside (thread : τ) : ThreadQueue.Action τ β type → Prop where
  | advance (attempted : Bool) : Inside thread (.advance thread attempted)
  | copyByte (byte : Fin type) : Inside thread (.copyByte thread byte)

section Queue

variable [DecidableEq τ] {state next : ThreadQueue.State τ β type} {thread : τ}

/-- What a step of a push does: it reserves once, and moves no other thread. -/
structure PushStep (thread : τ) (state next : ThreadQueue.State τ β type) : Prop where
  others : ∀ other, other ≠ thread → next.threads other = state.threads other
  claimed : next.history.claimed = state.history.claimed
  stays : next.threads thread ≠ .idle → ThreadState.pushes (next.threads thread)
  reserved : next.threads thread ≠ .idle →
    next.history.reserved.length + (ThreadState.reserved (state.threads thread)).toNat =
      state.history.reserved.length + (ThreadState.reserved (next.threads thread)).toNat
  returned : next.threads thread = .idle → next.history.reserved = state.history.reserved

/-- What a step of a pop does: it claims once, fails without, and moves no other thread. -/
structure PopStep (thread : τ) (state next : ThreadQueue.State τ β type) : Prop where
  others : ∀ other, other ≠ thread → next.threads other = state.threads other
  reserved : next.history.reserved = state.history.reserved
  stays : next.threads thread ≠ .idle → ThreadState.pops (next.threads thread)
  claimed : next.threads thread ≠ .idle →
    next.history.claimed.length + (ThreadState.claimed (state.threads thread)).toNat =
      state.history.claimed.length + (ThreadState.claimed (next.threads thread)).toNat
  returned : next.threads thread = .idle → next.history.claimed = state.history.claimed ∧
    (ThreadState.claimed (state.threads thread) = true ∨
      ThreadState.fails (state.threads thread) = true)

/-- A move of one thread on its local variables only. -/
theorem pushStep_move {moved : ThreadState β type} (pushes : ThreadState.pushes moved)
    (same : ThreadState.reserved moved = ThreadState.reserved (state.threads thread)) :
    PushStep thread state (state.setThread thread moved) where
  others other different := State.setThread_of_ne state different moved
  claimed := rfl
  stays _ := by rwa [State.setThread_self]
  reserved _ := by
    rw [State.setThread_self, same]
    rfl
  returned _ := rfl

theorem popStep_move {moved : ThreadState β type} (pops : ThreadState.pops moved)
    (same : ThreadState.claimed moved = ThreadState.claimed (state.threads thread)) :
    PopStep thread state (state.setThread thread moved) where
  others other different := State.setThread_of_ne state different moved
  reserved := rfl
  stays _ := by rwa [State.setThread_self]
  claimed _ := by
    rw [State.setThread_self, same]
    rfl
  returned idle := by
    rw [State.setThread_self] at idle
    rw [idle] at pops
    cases pops

theorem push_step {action : ThreadQueue.Action τ β type} (inside : Inside thread action)
    (pushing : ThreadState.pushes (state.threads thread))
    (stepped : ThreadQueue.step state action = some next) : PushStep thread state next := by
  cases inside with
  | advance attempted =>
      rw [ThreadQueue.step, advance] at stepped
      cases at_thread : state.threads thread with
      | idle | popLoadAt | popLoadSeq | popTest | popCopy =>
          rw [at_thread] at pushing
          cases pushing
      | pushLoadEnd value =>
          rw [at_thread] at stepped
          cases stepped
          exact pushStep_move trivial (by rw [at_thread]; rfl)
      | pushLoadSeq value position =>
          rw [at_thread] at stepped
          cases stepped
          exact pushStep_move trivial (by rw [at_thread]; rfl)
      | pushTest value position seq =>
          rw [at_thread] at stepped
          have again : PushStep thread state
              (state.setThread thread (.pushLoadSeq value state.queue.qend)) :=
            pushStep_move trivial (by rw [at_thread]; rfl)
          simp only at stepped
          split_ifs at stepped with equal taken negative
          · cases stepped
            exact {
              others := fun other different => State.setThread_of_ne _ different _
              claimed := rfl
              stays := fun _ => by
                rw [reserve, State.setThread_self]
                trivial
              reserved := fun _ => by
                rw [reserve, State.setThread_self, at_thread]
                exact List.length_append
              returned := fun idle => by
                rw [reserve, State.setThread_self] at idle
                cases idle }
          · cases stepped
            exact again
          · cases stepped
            exact {
              others := fun other different => State.setThread_of_ne _ different _
              claimed := rfl
              stays := fun moved => absurd (State.setThread_self ..) moved
              reserved := fun moved => absurd (State.setThread_self ..) moved
              returned := fun _ => rfl }
          · cases stepped
            exact again
      | pushCopy value position copied =>
          rw [at_thread] at stepped
          simp only at stepped
          split_ifs at stepped
          cases stepped
          exact {
            others := fun other different => State.setThread_of_ne _ different _
            claimed := rfl
            stays := fun moved => absurd (State.setThread_self ..) moved
            reserved := fun moved => absurd (State.setThread_self ..) moved
            returned := fun _ => rfl }
  | copyByte byte =>
      rw [ThreadQueue.step] at stepped
      split at stepped
      · next at_thread =>
          cases stepped
          exact {
            others := fun other different => State.setThread_of_ne _ different _
            claimed := rfl
            stays := fun _ => by
              rw [writeByte, State.setThread_self]
              trivial
            reserved := fun _ => by
              rw [writeByte, State.setThread_self, at_thread]
              rfl
            returned := fun _ => rfl }
      · next at_thread =>
          rw [at_thread] at pushing
          cases pushing
      · cases stepped

theorem pop_step {action : ThreadQueue.Action τ β type} (inside : Inside thread action)
    (popping : ThreadState.pops (state.threads thread))
    (stepped : ThreadQueue.step state action = some next) : PopStep thread state next := by
  cases inside with
  | advance attempted =>
      rw [ThreadQueue.step, advance] at stepped
      cases at_thread : state.threads thread with
      | idle | pushLoadEnd | pushLoadSeq | pushTest | pushCopy =>
          rw [at_thread] at popping
          cases popping
      | popLoadAt dst =>
          rw [at_thread] at stepped
          cases stepped
          exact popStep_move trivial (by rw [at_thread]; rfl)
      | popLoadSeq dst position =>
          rw [at_thread] at stepped
          cases stepped
          exact popStep_move trivial (by rw [at_thread]; rfl)
      | popTest dst position seq =>
          rw [at_thread] at stepped
          have again : PopStep thread state
              (state.setThread thread (.popLoadSeq dst state.queue.qat)) :=
            popStep_move trivial (by rw [at_thread]; rfl)
          simp only at stepped
          split_ifs at stepped with equal taken negative
          · cases stepped
            exact {
              others := fun other different => State.setThread_of_ne _ different _
              reserved := rfl
              stays := fun _ => by
                rw [claim, State.setThread_self]
                trivial
              claimed := fun _ => by
                rw [claim, State.setThread_self, at_thread]
                exact List.length_append
              returned := fun idle => by
                rw [claim, State.setThread_self] at idle
                cases idle }
          · cases stepped
            exact again
          · cases stepped
            exact {
              others := fun other different => State.setThread_of_ne _ different _
              reserved := rfl
              stays := fun moved => absurd (State.setThread_self ..) moved
              claimed := fun moved => absurd (State.setThread_self ..) moved
              returned := fun _ => ⟨rfl, .inr (by
                rw [at_thread]
                exact decide_eq_true negative)⟩ }
          · cases stepped
            exact again
      | popCopy dst position copied =>
          rw [at_thread] at stepped
          simp only at stepped
          split_ifs at stepped
          cases stepped
          exact {
            others := fun other different => State.setThread_of_ne _ different _
            reserved := rfl
            stays := fun moved => absurd (State.setThread_self ..) moved
            claimed := fun moved => absurd (State.setThread_self ..) moved
            returned := fun _ => ⟨rfl, .inl (by rw [at_thread]; rfl)⟩ }
  | copyByte byte =>
      rw [ThreadQueue.step] at stepped
      split at stepped
      · next at_thread =>
          rw [at_thread] at popping
          cases popping
      · next at_thread =>
          cases stepped
          exact {
            others := fun other different => State.setThread_of_ne _ different _
            reserved := rfl
            stays := fun _ => by
              rw [readByte, State.setThread_self]
              trivial
            claimed := fun _ => by
              rw [readByte, State.setThread_self, at_thread]
              rfl
            returned := fun idle => by
              rw [readByte, State.setThread_self] at idle
              cases idle }
      · cases stepped

end Queue

/-! ## Signals to come -/

/-- A producer reserved a slot, or found no room, and has not signalled yet. -/
def State.owes (state : State τ β type) (thread : τ) : Bool :=
  match state.callers thread with
  | .outside => false
  | .pushing => ThreadState.reserved (state.queue.threads thread)
  | .pushed => true

/-- The rounds of the inner loop that have not claimed an operation yet. -/
def State.rounds (ioThread : τ) (state : State τ β type) : Nat :=
  match state.loop with
  | .waiting => 0
  | .head rounds => rounds
  | .popping rest => if ThreadState.claimed (state.queue.threads ioThread) then rest else rest + 1
  | .executing rest => rest

variable [Fintype τ]

/-- The signals still to come: those in the notifier, and those of the producers. -/
def State.signals (state : State τ β type) : Nat :=
  state.notifier + tally fun thread => state.owes thread = true

/-- A pop that returns false leaves no more operations than there are signals to come. -/
def Accounted (ioThread : τ) (state : State τ β type) : Action τ β type → Prop
  | .advance thread _ => thread = ioThread →
      ThreadState.fails (state.queue.threads ioThread) = true →
      state.queued.length ≤ state.signals
  | _ => True

instance [DecidableEq τ] (ioThread : τ) (state : State τ β type) (action : Action τ β type) :
    Decidable (Accounted ioThread state action) :=
  match action with
  | .advance _ _ => inferInstanceAs (Decidable (_ → _ → _))
  | .request _ _ | .copyByte _ _ | .signal _ | .wake | .next _ | .finish =>
      inferInstanceAs (Decidable True)

/-- Every operation in the queue has a round of the inner loop, or a signal to come. -/
structure Covered (ioThread : τ) (state : State τ β type) : Prop where
  pushing : ∀ thread, state.callers thread = .pushing →
    ThreadState.pushes (state.queue.threads thread)
  popping : ∀ rest, state.loop = .popping rest →
    ThreadState.pops (state.queue.threads ioThread)
  alone : (∀ rest, state.loop ≠ .executing rest) → state.callers ioThread = .outside
  rounds : state.queue.history.reserved.length ≤
    state.queue.history.claimed.length + state.rounds ioThread + state.signals

section Steps

variable [DecidableEq τ] {ioThread : τ} {state next : State τ β type}

omit [Fintype τ] in
theorem callPush_step {thread : τ} {operation : Element β type}
    {queue : ThreadQueue.State τ β type}
    (called : ThreadQueue.step state.queue (.callPush thread operation) = some queue) :
    queue = state.queue.setThread thread (.pushLoadEnd operation) := by
  rw [ThreadQueue.step] at called
  split at called
  · cases called
    rfl
  · cases called

omit [Fintype τ] in
theorem callPop_step {operation : Element β type} {queue : ThreadQueue.State τ β type}
    (called : ThreadQueue.step state.queue (.callPop ioThread operation) = some queue) :
    queue = state.queue.setThread ioThread (.popLoadAt operation) := by
  rw [ThreadQueue.step] at called
  split at called
  · cases called
    rfl
  · cases called

omit [Fintype τ] [DecidableEq τ] in
/-- Only a pop in progress makes the rounds depend on the queue. -/
theorem rounds_congr (loop : next.loop = state.loop)
    (unmoved : ∀ rest, state.loop = .popping rest →
      next.queue.threads ioThread = state.queue.threads ioThread) :
    next.rounds ioThread = state.rounds ioThread := by
  unfold State.rounds
  rw [loop]
  cases current : state.loop with
  | popping rest => rw [unmoved rest current]
  | waiting => rfl
  | head rounds => rfl
  | executing rest => rfl

/-- One thread moved: the others owe what they owed. -/
theorem signals_moved {thread : τ}
    (others : ∀ other, other ≠ thread → next.callers other = state.callers other ∧
      next.queue.threads other = state.queue.threads other) :
    next.signals + state.notifier + (state.owes thread).toNat =
      state.signals + next.notifier + (next.owes thread).toNat := by
  have changed := tally_changed (fun other => state.owes other = true)
    (fun other => next.owes other = true) fun other (different : other ≠ thread) => by
      rw [State.owes, State.owes, (others other different).1, (others other different).2]
  have toNat : ∀ value : Bool, (if value = true then 1 else 0) = value.toNat := by decide
  rw [toNat, toNat] at changed
  rw [State.signals, State.signals]
  omega

/-- One thread moved: it is enough to count what this
one and the I/O thread did. -/
theorem Covered.moved {thread : τ} (covered : Covered ioThread state)
    (others : ∀ other, other ≠ thread → next.callers other = state.callers other ∧
      next.queue.threads other = state.queue.threads other)
    (pushing : next.callers thread = .pushing → ThreadState.pushes (next.queue.threads thread))
    (popping : ∀ rest, next.loop = .popping rest →
      ThreadState.pops (next.queue.threads ioThread))
    (alone : (∀ rest, next.loop ≠ .executing rest) → next.callers ioThread = .outside)
    (counted : next.queue.history.reserved.length + state.queue.history.claimed.length +
        state.rounds ioThread + state.notifier + (state.owes thread).toNat ≤
      state.queue.history.reserved.length + next.queue.history.claimed.length +
        next.rounds ioThread + next.notifier + (next.owes thread).toNat) :
    Covered ioThread next where
  pushing other isPushing := by
    by_cases same : other = thread
    · rw [same] at isPushing ⊢
      exact pushing isPushing
    · rw [(others other same).1] at isPushing
      rw [(others other same).2]
      exact covered.pushing other isPushing
  popping := popping
  alone := alone
  rounds := by
    have signals := signals_moved others
    have held := covered.rounds
    omega

theorem request_covered {thread : τ} {operation : Element β type} (covered : Covered ioThread state)
    (stepped : step ioThread state (.request thread operation) = some next) :
    Covered ioThread next := by
  rw [step] at stepped
  split at stepped
  · rename_i may
    rcases Option.bind_eq_some_iff.mp stepped with ⟨queue, called, stepped⟩
    obtain ⟨callers, moved, loop, notifier⟩ :
        next.callers = Function.update state.callers thread .pushing ∧
          next.queue = state.queue.setThread thread (.pushLoadEnd operation) ∧
          next.loop = state.loop ∧ next.notifier = state.notifier := by
      cases stepped
      exact ⟨rfl, callPush_step called, rfl, rfl⟩
    have outside : state.callers thread = .outside := by
      unfold mayRequest at may
      split at may
      · assumption
      · assumption
      · cases may
    have apart : (∀ rest, state.loop ≠ .executing rest) → ioThread ≠ thread := by
      rintro notExecuting rfl
      unfold mayRequest at may
      split at may
      · rename_i rest _ executing
        exact notExecuting rest executing
      · exact of_decide_eq_true may rfl
      · cases may
    have unmoved : ∀ other, other ≠ thread →
        next.queue.threads other = state.queue.threads other := by
      intro other different
      rw [moved, State.setThread_of_ne _ different]
    have popApart : ∀ rest, state.loop = .popping rest → ioThread ≠ thread := by
      intro rest popping
      apply apart
      intro other executing
      rw [popping] at executing
      cases executing
    apply covered.moved
    · intro other different
      exact ⟨by rw [callers, Function.update_of_ne different], unmoved other different⟩
    · intro _
      rw [moved, State.setThread_self]
      trivial
    · intro rest popping
      rw [loop] at popping
      rw [unmoved ioThread (popApart rest popping)]
      exact covered.popping rest popping
    · intro notExecuting
      rw [loop] at notExecuting
      rw [callers, Function.update_of_ne (apart notExecuting)]
      exact covered.alone notExecuting
    · rw [rounds_congr loop fun rest popping => unmoved ioThread (popApart rest popping)]
      simp only [State.owes, outside, callers, moved, notifier, Function.update_self,
        State.setThread_self]
      exact Nat.le_refl _
  · cases stepped

omit [Fintype τ] in
/-- A push that has not returned yet, or has. -/
theorem returnPush_cases {queue : ThreadQueue.State τ β type} {thread : τ}
    (returned : returnPush { state with queue := queue } thread = next) :
    next.queue = queue ∧ next.loop = state.loop ∧ next.notifier = state.notifier ∧
      (queue.threads thread ≠ .idle ∧ next.callers = state.callers ∨
        queue.threads thread = .idle ∧
          next.callers = Function.update state.callers thread .pushed) := by
  unfold returnPush at returned
  split at returned
  · rename_i idle
    cases returned
    exact ⟨rfl, rfl, rfl, .inr ⟨idle, rfl⟩⟩
  · rename_i busy
    cases returned
    exact ⟨rfl, rfl, rfl, .inl ⟨busy, rfl⟩⟩

/-- A step inside `push_tqueue`. -/
theorem push_covered {thread : τ} {action : ThreadQueue.Action τ β type}
    (covered : Covered ioThread state) (inside : Inside thread action)
    (isPushing : state.callers thread = .pushing) {queue : ThreadQueue.State τ β type}
    (stepped : ThreadQueue.step state.queue action = some queue)
    (returned : returnPush { state with queue := queue } thread = next) :
    Covered ioThread next := by
  have push := push_step inside (covered.pushing thread isPushing) stepped
  obtain ⟨rfl, loop, notifier, callers⟩ := returnPush_cases returned
  have apart : (∀ rest, state.loop ≠ .executing rest) → ioThread ≠ thread := by
    rintro notExecuting rfl
    have outside := covered.alone notExecuting
    rw [isPushing] at outside
    cases outside
  have popUnmoved : ∀ rest, state.loop = .popping rest →
      next.queue.threads ioThread = state.queue.threads ioThread := by
    intro rest popping
    apply push.others ioThread (apart ?_)
    intro other executing
    rw [popping] at executing
    cases executing
  have others : ∀ other, other ≠ thread → next.callers other = state.callers other := by
    intro other different
    rcases callers with ⟨_, same⟩ | ⟨_, same⟩
    · rw [same]
    · rw [same, Function.update_of_ne different]
  apply covered.moved
  · exact fun other different => ⟨others other different, push.others other different⟩
  · intro stillPushing
    rcases callers with ⟨busy, _⟩ | ⟨_, pushed⟩
    · exact push.stays busy
    · rw [pushed, Function.update_self] at stillPushing
      cases stillPushing
  · intro rest popping
    rw [loop] at popping
    rw [popUnmoved rest popping]
    exact covered.popping rest popping
  · intro notExecuting
    rw [loop] at notExecuting
    rw [others ioThread (apart notExecuting)]
    exact covered.alone notExecuting
  · rw [rounds_congr loop popUnmoved, notifier, push.claimed, State.owes, isPushing]
    rcases callers with ⟨busy, same⟩ | ⟨idle, pushed⟩
    · have reserved := push.reserved busy
      rw [State.owes, same, isPushing]
      dsimp only
      omega
    · have owesOne : next.owes thread = true := by
        rw [State.owes, pushed, Function.update_self]
      rw [push.returned idle, owesOne]
      have bound := Bool.toNat_le (ThreadState.reserved (state.queue.threads thread))
      dsimp only [Bool.toNat_true]
      omega

omit [Fintype τ] [DecidableEq τ] in
/-- A pop that has not returned yet, or has. -/
theorem returnPop_cases {queue : ThreadQueue.State τ β type} {rest : Nat} {copied : Bool}
    (returned : returnPop { state with queue := queue } ioThread rest copied = next) :
    next.queue = queue ∧ next.callers = state.callers ∧ next.notifier = state.notifier ∧
      (queue.threads ioThread ≠ .idle ∧ next.loop = state.loop ∨
        queue.threads ioThread = .idle ∧
          next.loop = if copied then .executing rest else .waiting) := by
  unfold returnPop at returned
  split at returned
  · rename_i idle
    cases returned
    exact ⟨rfl, rfl, rfl, .inr ⟨idle, rfl⟩⟩
  · rename_i busy
    cases returned
    exact ⟨rfl, rfl, rfl, .inl ⟨busy, rfl⟩⟩

/-- A step inside `pop_tqueue`. -/
theorem pop_covered {action : ThreadQueue.Action τ β type} {rest : Nat}
    (covered : Covered ioThread state) (inside : Inside ioThread action)
    (isPopping : state.loop = .popping rest)
    (accounted : ThreadState.fails (state.queue.threads ioThread) = true →
      state.queued.length ≤ state.signals)
    {queue : ThreadQueue.State τ β type}
    (stepped : ThreadQueue.step state.queue action = some queue)
    (returned : returnPop { state with queue := queue } ioThread rest
      (ThreadState.claimed (state.queue.threads ioThread)) = next) :
    Covered ioThread next := by
  have pop := pop_step inside (covered.popping rest isPopping) stepped
  obtain ⟨rfl, callers, notifier, loop⟩ := returnPop_cases returned
  have outside : state.callers ioThread = .outside := by
    apply covered.alone
    intro other executing
    rw [isPopping] at executing
    cases executing
  have others : ∀ other, other ≠ ioThread → next.callers other = state.callers other ∧
      next.queue.threads other = state.queue.threads other :=
    fun other different => ⟨by rw [callers], pop.others other different⟩
  have owesNone : ∀ current : State τ β type, current.callers ioThread = .outside →
      current.owes ioThread = false := by
    intro current isOutside
    rw [State.owes, isOutside]
  have outsideNext : next.callers ioThread = .outside := by rw [callers, outside]
  have notPushing : next.callers ioThread ≠ .pushing := by
    rw [outsideNext]
    exact fun impossible => by cases impossible
  have roundsBefore : state.rounds ioThread =
      if ThreadState.claimed (state.queue.threads ioThread) then rest else rest + 1 := by
    rw [State.rounds, isPopping]
  rcases loop with ⟨busy, same⟩ | ⟨idle, ended⟩
  · apply covered.moved others
    · exact fun isPushing => absurd isPushing notPushing
    · exact fun _ _ => pop.stays busy
    · exact fun _ => outsideNext
    · have claimed := pop.claimed busy
      have roundsAfter : next.rounds ioThread =
          if ThreadState.claimed (next.queue.threads ioThread) then rest else rest + 1 := by
        rw [State.rounds, same, isPopping]
      rw [roundsBefore, roundsAfter, pop.reserved, notifier, owesNone state outside,
        owesNone next outsideNext]
      cases before : ThreadState.claimed (state.queue.threads ioThread) <;>
        cases after : ThreadState.claimed (next.queue.threads ioThread) <;>
        rw [before, after] at claimed <;>
        simp only [Bool.toNat_true, Bool.toNat_false, if_true, if_false,
          Bool.false_eq_true] at claimed ⊢ <;>
        omega
  · rcases pop.returned idle with ⟨claimed, copied | failed⟩
    · rw [if_pos copied] at ended
      apply covered.moved others
      · exact fun isPushing => absurd isPushing notPushing
      · intro other popping
        rw [ended] at popping
        cases popping
      · exact fun _ => outsideNext
      · have roundsAfter : next.rounds ioThread = rest := by rw [State.rounds, ended]
        rw [roundsBefore, roundsAfter, if_pos copied, pop.reserved, claimed, notifier,
          owesNone state outside, owesNone next outsideNext]
    · have notCopied : ThreadState.claimed (state.queue.threads ioThread) = false := by
        cases at_thread : state.queue.threads ioThread <;> rw [at_thread] at failed <;>
          first | rfl | cases failed
      rw [notCopied] at ended
      have signals := signals_moved others
      have left := accounted failed
      rw [owesNone state outside, owesNone next outsideNext] at signals
      rw [State.queued, List.length_drop] at left
      exact {
        pushing := fun other isPushing => by
          by_cases same : other = ioThread
          · rw [same] at isPushing
            exact absurd isPushing notPushing
          · rw [(others other same).1] at isPushing
            rw [(others other same).2]
            exact covered.pushing other isPushing
        popping := fun other popping => by
          rw [ended] at popping
          cases popping
        alone := fun _ => outsideNext
        rounds := by
          rw [pop.reserved, claimed]
          omega }

/-- The steps inside the queue. -/
theorem queueStep_covered {thread : τ} {action : ThreadQueue.Action τ β type}
    (covered : Covered ioThread state) (inside : Inside thread action)
    (accounted : thread = ioThread →
      ThreadState.fails (state.queue.threads ioThread) = true →
      state.queued.length ≤ state.signals)
    (stepped : queueStep ioThread state thread action = some next) : Covered ioThread next := by
  unfold queueStep at stepped
  split at stepped
  · rename_i isPushing
    rcases Option.bind_eq_some_iff.mp stepped with ⟨queue, moved, returned⟩
    exact push_covered covered inside isPushing moved (Option.some.inj returned)
  · cases stepped
  · split at stepped
    · rename_i rest isPopping
      split at stepped
      · rename_i same
        subst same
        rcases Option.bind_eq_some_iff.mp stepped with ⟨queue, moved, returned⟩
        exact pop_covered covered inside isPopping (accounted rfl) moved (Option.some.inj returned)
      · cases stepped
    · cases stepped

omit [Fintype τ] in
/-- A pop that is about to fail copies nothing. -/
theorem copyByte_not_failing {byte : Fin type}
    (fails : ThreadState.fails (state.queue.threads ioThread) = true) :
    ThreadQueue.step state.queue (.copyByte ioThread byte) = none := by
  cases at_thread : state.queue.threads ioThread <;> rw [at_thread] at fails <;>
    first | cases fails | simp only [ThreadQueue.step, at_thread]

theorem signal_covered {thread : τ} (covered : Covered ioThread state)
    (stepped : step ioThread state (.signal thread) = some next) : Covered ioThread next := by
  rw [step] at stepped
  split at stepped
  · rename_i pushed
    obtain ⟨callers, queue, loop, notifier⟩ :
        next.callers = Function.update state.callers thread .outside ∧
          next.queue = state.queue ∧ next.loop = state.loop ∧
          next.notifier = state.notifier + 1 := by
      cases stepped
      exact ⟨rfl, rfl, rfl, rfl⟩
    have own : next.callers thread = .outside := by rw [callers, Function.update_self]
    apply covered.moved
    · intro other different
      rw [callers, Function.update_of_ne different, queue]
      exact ⟨rfl, rfl⟩
    · intro isPushing
      rw [own] at isPushing
      cases isPushing
    · intro rest popping
      rw [loop] at popping
      rw [queue]
      exact covered.popping rest popping
    · intro notExecuting
      rw [loop] at notExecuting
      by_cases same : ioThread = thread
      · rw [same, own]
      · rw [callers, Function.update_of_ne same]
        exact covered.alone notExecuting
    · have owesOne : state.owes thread = true := by rw [State.owes, pushed]
      have owesNone : next.owes thread = false := by rw [State.owes, own]
      have rounds : next.rounds ioThread = state.rounds ioThread :=
        rounds_congr loop fun _ _ => by rw [queue]
      rw [rounds, queue, notifier, owesOne, owesNone, Bool.toNat_true, Bool.toNat_false]
      omega
  · cases stepped

/-- A step of the I/O thread that is not one of the queue: it moves rounds between the
notifier and the loop. -/
theorem loop_covered (covered : Covered ioThread state)
    (callers : next.callers = state.callers) (outside : state.callers ioThread = .outside)
    (others : ∀ other, other ≠ ioThread →
      next.queue.threads other = state.queue.threads other)
    (popping : ∀ rest, next.loop = .popping rest →
      ThreadState.pops (next.queue.threads ioThread))
    (history : next.queue.history = state.queue.history)
    (counted : next.rounds ioThread + next.notifier = state.rounds ioThread + state.notifier) :
    Covered ioThread next := by
  have outsideNext : next.callers ioThread = .outside := by rw [callers, outside]
  apply covered.moved (fun other different => ⟨by rw [callers], others other different⟩)
  · intro isPushing
    rw [outsideNext] at isPushing
    cases isPushing
  · exact popping
  · exact fun _ => outsideNext
  · have owes : state.owes ioThread = false := by rw [State.owes, outside]
    have owesNext : next.owes ioThread = false := by rw [State.owes, outsideNext]
    rw [history, owes, owesNext]
    omega

theorem wake_covered (covered : Covered ioThread state)
    (stepped : step ioThread state .wake = some next) : Covered ioThread next := by
  rw [step] at stepped
  split at stepped
  · rename_i waiting
    have outside : state.callers ioThread = .outside :=
      covered.alone fun other executing => by
        rw [waiting] at executing
        cases executing
    split at stepped
    · cases stepped
    · cases stepped
      refine loop_covered covered ?_ outside (fun _ _ => ?_) ?_ ?_ ?_
      · rfl
      · rfl
      · intro rest popping
        cases popping
      · rfl
      · simp only [State.rounds, waiting]
        omega
  · cases stepped

theorem next_covered {operation : Element β type} (covered : Covered ioThread state)
    (stepped : step ioThread state (.next operation) = some next) : Covered ioThread next := by
  rw [step] at stepped
  split at stepped
  · rename_i head
    have outside : state.callers ioThread = .outside :=
      covered.alone fun other executing => by
        rw [head] at executing
        cases executing
    cases stepped
    refine loop_covered covered ?_ outside (fun _ _ => ?_) ?_ ?_ ?_
    · rfl
    · rfl
    · intro rest popping
      cases popping
    · rfl
    · simp only [State.rounds, head]
  · rename_i rest head
    have outside : state.callers ioThread = .outside :=
      covered.alone fun other executing => by
        rw [head] at executing
        cases executing
    rcases Option.bind_eq_some_iff.mp stepped with ⟨queue, called, stepped⟩
    have moved := callPop_step called
    cases stepped
    refine loop_covered covered ?_ outside ?_ ?_ ?_ ?_
    · rfl
    · intro other different
      rw [moved]
      exact State.setThread_of_ne _ different _
    · intro _ _
      rw [moved, State.setThread_self]
      trivial
    · rw [moved]
      rfl
    · simp only [State.rounds, head, moved, State.setThread_self]
      rfl
  · cases stepped

theorem finish_covered (covered : Covered ioThread state)
    (stepped : step ioThread state .finish = some next) : Covered ioThread next := by
  rw [step] at stepped
  split at stepped
  · rename_i rest executing outside
    cases stepped
    refine loop_covered covered ?_ outside (fun _ _ => ?_) ?_ ?_ ?_
    · rfl
    · rfl
    · intro rest popping
      cases popping
    · rfl
    · simp only [State.rounds, executing]
  · cases stepped

/-- One accounted step. -/
theorem step_covered {action : Action τ β type} (covered : Covered ioThread state)
    (accounted : Accounted ioThread state action)
    (stepped : step ioThread state action = some next) : Covered ioThread next := by
  cases action with
  | request thread operation => exact request_covered covered stepped
  | advance thread attempted =>
      exact queueStep_covered covered (.advance attempted) accounted stepped
  | copyByte thread byte =>
      apply queueStep_covered covered (.copyByte byte) _ stepped
      rintro rfl fails
      rw [step, queueStep, copyByte_not_failing fails] at stepped
      split at stepped
      · cases stepped
      · cases stepped
      · split at stepped
        · rw [if_pos rfl] at stepped
          cases stepped
        · cases stepped
  | signal thread => exact signal_covered covered stepped
  | wake => exact wake_covered covered stepped
  | next operation => exact next_covered covered stepped
  | finish => exact finish_covered covered stepped

omit [DecidableEq τ] in
/-- At the start, nothing is queued. -/
theorem initial_covered (queue : ThreadQueue β type) :
    Covered ioThread (initial queue : State τ β type) where
  pushing _ isPushing := by cases isPushing
  popping _ popping := by cases popping
  alone _ := rfl
  rounds := Nat.zero_le _

/-! ## Nothing is left behind -/

omit [DecidableEq τ] in
/-- With all threads at rest there is no round and no signal that an operation could wait for. -/
theorem Covered.emptied (covered : Covered ioThread state) (waiting : state.loop = .waiting)
    (spent : state.notifier = 0) (outside : ∀ thread, state.callers thread = .outside) :
    state.queue.history.reserved.length ≤ state.queue.history.claimed.length := by
  have none : tally (fun thread => state.owes thread = true) = 0 := by
    apply tally_eq_zero
    intro thread owes
    rw [State.owes, outside thread] at owes
    cases owes
  have rounds := covered.rounds
  rw [State.rounds, waiting, State.signals, spent, none] at rounds
  exact rounds

/-- In every run whose failed pops are accounted for, the queue is empty whenever no thread is
in `add_io_request` and the I/O thread waits at a notifier of 0. -/
theorem nothing_left_behind {queue : ThreadQueue β type} {actions : List (Action τ β type)}
    {final : State τ β type}
    (accounted : Guarded (step ioThread) (Accounted ioThread) (initial queue) actions)
    (ran : run (step ioThread) (initial queue) actions = some final)
    (waiting : final.loop = .waiting) (spent : final.notifier = 0)
    (outside : ∀ thread, final.callers thread = .outside) : final.queued = [] := by
  have covered : Covered ioThread final :=
    guarded_run_invariant (fun _ _ _ covered accounted stepped =>
      step_covered covered accounted stepped) (initial_covered queue) accounted ran
  exact List.drop_eq_nil_iff.mpr (covered.emptied waiting spent outside)

end Steps

/-! ## Requests on fixed input -/

/-- A queue of two operations of one byte. -/
def sampleQueue : ThreadQueue Bool 1 where
  qat := 0
  qend := 0
  slots index := ⟨BitVec.ofNat 64 index, fun _ => false⟩
  capacity := 2

/-- Two producers, and the I/O thread, which is `none`. -/
abbrev SampleAction := Action (Option Bool) Bool 1

/-- A producer reserves a slot, -/
def sampleReserve (producer : Bool) : List SampleAction :=
  .request producer (fun _ => producer) :: List.replicate 3 (.advance producer true)

/-- publishes it and signals. -/
def samplePublish (producer : Bool) : List SampleAction :=
  [.copyByte producer ⟨0, by decide⟩, .advance producer true, .signal producer]

/-- The I/O thread wakes up for one round, and tests the oldest slot. -/
def sampleTest : List SampleAction :=
  [.wake, .next fun _ => false, .advance none true, .advance none true, .advance none true]

/-- It finds the slot full, executes the operation, and waits again. -/
def sampleRound : List SampleAction :=
  sampleTest ++ [.copyByte none ⟨0, by decide⟩, .advance none true, .finish, .next fun _ => false]

/-- The threads are at rest, with so many operations in the queue. -/
def restsWith (final : State (Option Bool) Bool 1) (count : Nat) : Bool :=
  decide (final.loop = .waiting ∧ final.notifier = 0 ∧
    (∀ thread, final.callers thread = .outside) ∧ final.queued.length = count)

/-- The two producers ask one after the other. -/
def sampleInTurn : List SampleAction :=
  sampleReserve false ++ samplePublish false ++ sampleRound ++ sampleReserve true ++
    samplePublish true ++ sampleRound

theorem nothing_left_behind_in_turn :
    ∃ final, run (step none) (initial sampleQueue) sampleInTurn = some final ∧
      final.queued = [] := by
  have rested : (run (step none) (initial sampleQueue) sampleInTurn).map (restsWith · 0) =
      some true := by
    decide +kernel
  obtain ⟨final, ran, rests⟩ := Option.map_eq_some_iff.mp rested
  obtain ⟨waiting, spent, outside, _⟩ := of_decide_eq_true rests
  have accounted : Guarded (step none) (Accounted none) (initial sampleQueue) sampleInTurn := by
    decide +kernel
  exact ⟨final, ran, nothing_left_behind accounted ran waiting spent outside⟩

/-- The first producer reserves the oldest slot, the second one signals first, and the I/O
thread drops its signal at the oldest slot: one operation stays. -/
theorem nothing_left_behind_fails_out_of_order : ¬ ∀ (actions : List SampleAction)
    (final : State (Option Bool) Bool 1),
    run (step none) (initial sampleQueue) actions = some final → final.loop = .waiting →
      final.notifier = 0 → (∀ thread, final.callers thread = .outside) → final.queued = [] := by
  intro empty
  let actions := sampleReserve false ++ sampleReserve true ++ samplePublish true ++ sampleTest ++
    samplePublish false ++ sampleRound
  have left : (run (step none) (initial sampleQueue) actions).map (restsWith · 1) = some true := by
    decide +kernel
  obtain ⟨final, ran, rests⟩ := Option.map_eq_some_iff.mp left
  obtain ⟨waiting, spent, outside, one⟩ := of_decide_eq_true rests
  rw [empty actions final ran waiting spent outside] at one
  cases one

end TellyDB.Io
