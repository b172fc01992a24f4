import TellyDB.Io.Placement

/-!
Owns the transaction thread: `add_transaction` and `enqueue_to_transaction_queue` on the side of
the threads that bring blocks, the loop of `transaction_thread` on the other, and
`destroy_transaction_thread` and `free_transaction_blocks` at the end. One step is a step of the
queue, a signal, an access to `kill_pending` or the consumption of the notifier.

The transaction thread brings the block of `EXEC` itself, so it is one of the threads. The blocks
of the model are the pointers that the queue carries.
-/

namespace TellyDB.Transactions

open Utils Utils.ThreadQueue

variable {τ β : Type} {type : Nat}

/-- Where a thread stands with a block: outside; in the loop of `add_transaction` that repeats
`push_tqueue`; in `enqueue_to_transaction_queue`, which pushes once; or between the push and
`signal_notifier`. Who destroys the thread stands between the store to `kill_pending` and
`signal_notifier`. -/
inductive Caller (β : Type) (type : Nat) where
  | outside
  | adding (block : Element β type)
  | enqueueing (block : Element β type)
  | placed
  | killing

/-- Where the transaction thread stands: at the test of `kill_pending`; waiting for the notifier;
at the head of the inner loop with `count`; in `pop_tqueue`, which it repeats until it finds a
block if it `spins`; executing a block, each with the count that remains after it; or past the
loop, with the notifier destroyed. -/
inductive Loop (β : Type) (type : Nat) where
  | testing
  | waiting
  | head (count : Nat)
  | popping (rest : Nat) (spins : Bool)
  | executing (block : Element β type) (rest : Nat)
  | ended

/-- `executed` lists the blocks that were executed and removed. No step reads it. -/
structure State (τ β : Type) (type : Nat) where
  queue : ThreadQueue.State τ β type
  notifier : Nat
  killed : Bool
  callers : τ → Caller β type
  loop : Loop β type
  executed : List (Element β type)

inductive Action (τ β : Type) (type : Nat) where
  /-- A thread calls `add_transaction`. -/
  | add (thread : τ) (block : Element β type)
  /-- `EXEC` calls `enqueue_to_transaction_queue`. -/
  | enqueue (block : Element β type)
  /-- A thread calls `push_tqueue` for its block. -/
  | push (thread : τ)
  /-- The transaction thread calls `pop_tqueue`. -/
  | pop (dst : Element β type)
  /-- A thread takes its next step in `push_tqueue` or `pop_tqueue`. -/
  | advance (thread : τ) (attempted : Bool)
  | copyByte (thread : τ) (byte : Fin type)
  /-- `signal_notifier(tx_notifier, 1)`. -/
  | signal (thread : τ)
  /-- `destroy_transaction_thread` stores to `kill_pending`. -/
  | kill (thread : τ)
  /-- The head of the outer loop loads `kill_pending`. -/
  | test
  /-- `WAIT_EVENTS` returns, and `consume_notifier` takes the count. -/
  | wake
  /-- The head of the inner loop, with its load of `kill_pending`. -/
  | next
  /-- The block is executed and removed. -/
  | finish

/-- The block a thread has to push. -/
def Caller.block : Caller β type → Option (Element β type)
  | .adding block | .enqueueing block => some block
  | _ => none

/-- What follows a `push_tqueue` that returned: `add_transaction` repeats it until it finds room,
`enqueue_to_transaction_queue` gives up. -/
def Caller.returned : Caller β type → (placed : Bool) → Caller β type
  | _, true => .placed
  | .enqueueing _, false => .outside
  | caller, false => caller

variable [DecidableEq τ]

/-- `push_tqueue` returned, with whether it reserved a slot. -/
def returnPush (state : State τ β type) (thread : τ) (placed : Bool) : State τ β type :=
  match state.queue.threads thread with
  | .idle => { state with
      callers := Function.update state.callers thread ((state.callers thread).returned placed) }
  | _ => state

/-- The element that a pop has claimed. -/
def ThreadState.copied : ThreadState β type → Option (Element β type)
  | .popCopy dst _ _ => some dst
  | _ => none

/-- What follows a `pop_tqueue` that returned: with a block the thread executes it, without one it
pops again if it spins, and counts down otherwise. -/
def Loop.returned (rest : Nat) (spins : Bool) : Option (Element β type) → Loop β type
  | some block => .executing block rest
  | none => if spins then .popping rest true else .head rest

/-- `pop_tqueue` returned. -/
def returnPop (state : State τ β type) (txThread : τ) (rest : Nat) (spins : Bool)
    (copied : Option (Element β type)) : State τ β type :=
  match state.queue.threads txThread with
  | .idle => { state with loop := Loop.returned rest spins copied }
  | _ => state

/-- One step of a thread inside the queue. -/
def queueStep (txThread : τ) (state : State τ β type) (thread : τ)
    (action : ThreadQueue.Action τ β type) : Option (State τ β type) :=
  match state.callers thread with
  | .adding _ | .enqueueing _ => do
      let queue ← ThreadQueue.step state.queue action
      some (returnPush { state with queue := queue } thread
        (Io.ThreadState.reserved (state.queue.threads thread)))
  | .placed | .killing => none
  | .outside =>
      match state.loop with
      | .popping rest spins =>
          if thread = txThread then do
            let queue ← ThreadQueue.step state.queue action
            some (returnPop { state with queue := queue } txThread rest spins
              (ThreadState.copied (state.queue.threads txThread)))
          else none
      | _ => none

/-- `signal_notifier`. The notifier is destroyed behind the loop, so there is no such step. -/
def signal (state : State τ β type) (thread : τ) : Option (State τ β type) :=
  match state.loop with
  | .ended => none
  | _ => some { state with
      notifier := state.notifier + 1
      callers := Function.update state.callers thread .outside }

def step (txThread : τ) (state : State τ β type) : Action τ β type → Option (State τ β type)
  | .add thread block =>
      match state.callers thread with
      | .outside =>
          if thread = txThread then none
          else some { state with
            callers := Function.update state.callers thread (.adding block) }
      | _ => none
  | .enqueue block =>
      match state.loop, state.callers txThread with
      | .executing _ _, .outside => some { state with
          callers := Function.update state.callers txThread (.enqueueing block) }
      | _, _ => none
  | .push thread =>
      match (state.callers thread).block with
      | some block => do
          let queue ← ThreadQueue.step state.queue (.callPush thread block)
          some { state with queue := queue }
      | none => none
  | .pop dst =>
      match state.loop with
      | .popping _ _ => do
          let queue ← ThreadQueue.step state.queue (.callPop txThread dst)
          some { state with queue := queue }
      | _ => none
  | .advance thread attempted => queueStep txThread state thread (.advance thread attempted)
  | .copyByte thread byte => queueStep txThread state thread (.copyByte thread byte)
  | .signal thread =>
      match state.callers thread with
      | .placed | .killing => signal state thread
      | _ => none
  | .kill thread =>
      match state.callers thread with
      | .outside =>
          if thread = txThread ∨ state.killed = true then none
          else some { state with
            killed := true
            callers := Function.update state.callers thread .killing }
      | _ => none
  | .test =>
      match state.loop with
      | .testing => some { state with loop := if state.killed then .ended else .waiting }
      | _ => none
  | .wake =>
      match state.loop with
      | .waiting =>
          if state.notifier = 0 then none
          else some { state with notifier := 0, loop := .head state.notifier }
      | _ => none
  | .next =>
      match state.loop with
      | .head 0 => some { state with loop := .testing }
      | .head (rest + 1) => some { state with loop := .popping rest !state.killed }
      | _ => none
  | .finish =>
      match state.loop, state.callers txThread with
      | .executing block rest, .outside => some { state with
          loop := .head rest
          executed := state.executed ++ [block] }
      | _, _ => none

/-- The transaction thread has just been created. -/
def initial (queue : ThreadQueue β type) : State τ β type where
  queue := ThreadQueue.State.initial queue
  notifier := 0
  killed := false
  callers _ := .outside
  loop := .testing
  executed := []

/-- The loop of `free_transaction_blocks`, with so many turns at most, and the blocks it removes.
It removes what `block` holds whether `pop_tqueue` found a block or not, which is undefined
without one. -/
def freeTransactionBlocks : Nat → ThreadQueue β type → Option (List (Element β type))
  | 0, _ => none
  | turns + 1, queue =>
      if estimateTqueueSize queue = 0 then some []
      else do
        let (queue, popped) ← popTqueue queue
        let block ← popped
        let rest ← freeTransactionBlocks turns queue
        some (block :: rest)

end TellyDB.Transactions
