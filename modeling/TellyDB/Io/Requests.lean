import TellyDB.Lib.Tally
import TellyDB.Utils.ThreadQueue

/-!
Owns the requests to one I/O thread: `add_io_request` on the side of the threads
that ask, and the loop of `io_thread_procedure` on the other, over the queue and
the notifier between them. One step is a step of the queue, a signal, or the
consumption of the notifier.

The I/O thread asks itself for operations while it executes one, so it is one of
the threads.
-/

namespace TellyDB.Io

open Utils Utils.ThreadQueue

variable {τ β : Type} {type : Nat}

/-- Where a thread stands in `add_io_request`: outside, in `push_tqueue`, or
between `push_tqueue` and `signal_notifier`. -/
inductive Caller where
  | outside
  | pushing
  | pushed
deriving DecidableEq

/-- Where the I/O thread stands in its loop: waiting for the notifier, at the
head of the inner loop with the rounds that remain, in `pop_tqueue`, or
executing an operation, each with the rounds that remain after this one. -/
inductive Loop where
  | waiting
  | head (rounds : Nat)
  | popping (rest : Nat)
  | executing (rest : Nat)
deriving DecidableEq

structure State (τ β : Type) (type : Nat) where
  queue : ThreadQueue.State τ β type
  notifier : Nat
  callers : τ → Caller
  loop : Loop

inductive Action (τ β : Type) (type : Nat) where
  /-- A thread calls `add_io_request`. -/
  | request (thread : τ) (operation : Element β type)
  /-- A thread takes its next step in `push_tqueue` or `pop_tqueue`. -/
  | advance (thread : τ) (attempted : Bool)
  | copyByte (thread : τ) (byte : Fin type)
  /-- `signal_notifier(selected->notifier, 1)`. -/
  | signal (thread : τ)
  /-- `WAIT_EVENTS` returns, and `consume_notifier` takes the count. -/
  | wake
  /-- The head of the inner loop: the next `pop_tqueue`, or back to waiting. -/
  | next (operation : Element β type)
  /-- The operation is executed. -/
  | finish

variable [DecidableEq τ]

/-- `push_tqueue` returned, whether it found room or not. -/
def returnPush (state : State τ β type) (thread : τ) : State τ β type :=
  match state.queue.threads thread with
  | .idle => { state with callers := Function.update state.callers thread .pushed }
  | _ => state

/-- `pop_tqueue` returned: true once it copied an operation, and false ends the
inner loop. -/
def returnPop (state : State τ β type) (ioThread : τ) (rest : Nat) (copied : Bool) :
    State τ β type :=
  match state.queue.threads ioThread with
  | .idle => { state with loop := if copied then .executing rest else .waiting }
  | _ => state

/-- A pop stands after its compare-and-swap. -/
def ThreadState.claimed : ThreadState β type → Bool
  | .popCopy _ _ _ => true
  | _ => false

/-- One step of a thread inside the queue. -/
def queueStep (ioThread : τ) (state : State τ β type) (thread : τ)
    (action : ThreadQueue.Action τ β type) : Option (State τ β type) :=
  match state.callers thread with
  | .pushing => do
      let queue ← ThreadQueue.step state.queue action
      some (returnPush { state with queue := queue } thread)
  | .pushed => none
  | .outside =>
      match state.loop with
      | .popping rest =>
          if thread = ioThread then do
            let queue ← ThreadQueue.step state.queue action
            some (returnPop { state with queue := queue } ioThread rest
              (ThreadState.claimed (state.queue.threads ioThread)))
          else none
      | _ => none

/-- A thread may call `add_io_request`; the I/O thread only while it executes an
operation. -/
def mayRequest (ioThread : τ) (state : State τ β type) (thread : τ) : Bool :=
  match state.callers thread, state.loop with
  | .outside, .executing _ => true
  | .outside, _ => decide (thread ≠ ioThread)
  | _, _ => false

def step (ioThread : τ) (state : State τ β type) : Action τ β type → Option (State τ β type)
  | .request thread operation =>
      if mayRequest ioThread state thread then do
        let queue ← ThreadQueue.step state.queue (.callPush thread operation)
        some { state with
          queue := queue
          callers := Function.update state.callers thread .pushing }
      else none
  | .advance thread attempted => queueStep ioThread state thread (.advance thread attempted)
  | .copyByte thread byte => queueStep ioThread state thread (.copyByte thread byte)
  | .signal thread =>
      match state.callers thread with
      | .pushed => some { state with
          notifier := state.notifier + 1
          callers := Function.update state.callers thread .outside }
      | _ => none
  | .wake =>
      match state.loop with
      | .waiting =>
          if state.notifier = 0 then none
          else some { state with notifier := 0, loop := .head state.notifier }
      | _ => none
  | .next operation =>
      match state.loop with
      | .head 0 => some { state with loop := .waiting }
      | .head (rest + 1) => do
          let queue ← ThreadQueue.step state.queue (.callPop ioThread operation)
          some { state with queue := queue, loop := .popping rest }
      | _ => none
  | .finish =>
      match state.loop, state.callers ioThread with
      | .executing rest, .outside => some { state with loop := .head rest }
      | _, _ => none

/-- Nobody has asked for anything yet. -/
def initial (queue : ThreadQueue β type) : State τ β type where
  queue := ThreadQueue.State.initial queue
  notifier := 0
  callers _ := .outside
  loop := .waiting

/-- The operations in the queue: reserved by a push, and not claimed by a pop. -/
def State.queued (state : State τ β type) : List (τ × Element β type) :=
  state.queue.history.reserved.drop state.queue.history.claimed.length

end TellyDB.Io
