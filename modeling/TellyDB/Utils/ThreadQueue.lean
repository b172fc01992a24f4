import TellyDB.Lib.Transition
import Mathlib.Data.Fintype.Basic
import Mathlib.Data.Finset.Insert
import Mathlib.Data.BitVec

/-!
Owns the bounded queue of `utils/tqueue.c`, shared by any number of threads.
One step is one atomic load, compare-and-swap or store, or the copy of one byte
of an element. All counters are the 64-bit words of the source.

The history records the order in which pushes reserved a position, the order in
which pops claimed one, and the pops that returned. No step reads it.
-/

namespace TellyDB.Utils

/-- `uint64_t`. -/
abbrev Word := BitVec 64

/-- The `type` bytes of one element. -/
abbrev Element (β : Type) (type : Nat) := Fin type → β

/-- `ThreadQueueSlot`. -/
structure ThreadQueueSlot (β : Type) (type : Nat) where
  seq : Word
  data : Element β type

/-- `ThreadQueue`. Only the slots below `capacity` belong to the array. -/
structure ThreadQueue (β : Type) (type : Nat) where
  qat : Word
  qend : Word
  slots : Nat → ThreadQueueSlot β type
  capacity : Word

namespace ThreadQueue

variable {τ β : Type} {type : Nat}

/-! ## Creation -/

/-- `init_state`, leaving the bytes of the element as the allocator delivered them. -/
def initState (slots : Nat → ThreadQueueSlot β type) (index : Nat) :
    Nat → ThreadQueueSlot β type :=
  Function.update slots index { slots index with seq := BitVec.ofNat 64 index }

/-- The slots `create_tqueue` initialises, in order: four to a turn of the
first loop, the rest one by one. -/
def initOrder (capacity : Nat) : List Nat :=
  ((List.range (capacity / 4)).flatMap fun i => [i * 4, i * 4 + 1, i * 4 + 2, i * 4 + 3]) ++
    List.range' (capacity / 4 * 4) (capacity - capacity / 4 * 4)

/-- `create_tqueue`, on the slots the allocator delivers. -/
def createTqueue (capacity align : Word) (memory : Nat → ThreadQueueSlot β type) :
    Option (ThreadQueue β type) :=
  if capacity = 0 ∨ capacity &&& (capacity - 1) ≠ 0 then none
  else
    let align := if align < 8 then 8 else align
    if align &&& (align - 1) ≠ 0 then none
    else some {
      qat := 0
      qend := 0
      slots := (initOrder capacity.toNat).foldl initState memory
      capacity := capacity }

/-- `estimate_tqueue_size`, both counters read at one moment. -/
def estimateTqueueSize (queue : ThreadQueue β type) : Word := queue.qend - queue.qat

/-- The slot of a position: `position & (capacity - 1)`. -/
def slotIndex (queue : ThreadQueue β type) (position : Word) : Nat :=
  (position &&& (queue.capacity - 1)).toNat

/-- `queue->slots[position & mask]`. -/
def slotAt (queue : ThreadQueue β type) (position : Word) : ThreadQueueSlot β type :=
  queue.slots (queue.slotIndex position)

/-- Replaces the slot of a position. -/
def setSlot (queue : ThreadQueue β type) (position : Word) (slot : ThreadQueueSlot β type) :
    ThreadQueue β type :=
  { queue with slots := Function.update queue.slots (queue.slotIndex position) slot }

/-! ## Threads -/

/-- Where a thread stands in `push_tqueue` or `pop_tqueue`, with its local
variables. `position` is the local `end` of a push and the local `at` of a pop. -/
inductive ThreadState (β : Type) (type : Nat) where
  | idle
  | pushLoadEnd (value : Element β type)
  | pushLoadSeq (value : Element β type) (position : Word)
  | pushTest (value : Element β type) (position seq : Word)
  | pushCopy (value : Element β type) (position : Word) (copied : Finset (Fin type))
  | popLoadAt (dst : Element β type)
  | popLoadSeq (dst : Element β type) (position : Word)
  | popTest (dst : Element β type) (position seq : Word)
  | popCopy (dst : Element β type) (position : Word) (copied : Finset (Fin type))

/-- A pop that returned true. -/
structure Popped (τ β : Type) (type : Nat) where
  position : Word
  thread : τ
  value : Element β type

/-- What happened so far: `reserved` lists the pushes in the order of their
compare-and-swap on `end`, `claimed` the pops in the order of theirs on `at`. -/
structure History (τ β : Type) (type : Nat) where
  reserved : List (τ × Element β type) := []
  claimed : List (τ × Word) := []
  popped : List (Popped τ β type) := []

/-- The queue with all threads that use it. -/
structure State (τ β : Type) (type : Nat) where
  queue : ThreadQueue β type
  threads : τ → ThreadState β type
  history : History τ β type

/-- Threads call `push_tqueue` and `pop_tqueue`, take their next atomic step,
or copy a byte. A compare-and-swap that is not `attempted` fails spuriously. -/
inductive Action (τ β : Type) (type : Nat) where
  | callPush (thread : τ) (value : Element β type)
  | callPop (thread : τ) (dst : Element β type)
  | advance (thread : τ) (attempted : Bool)
  | copyByte (thread : τ) (byte : Fin type)

variable [DecidableEq τ]

namespace State

/-- No thread has called anything yet. -/
def initial (queue : ThreadQueue β type) : State τ β type where
  queue := queue
  threads := fun _ => .idle
  history := {}

/-- Moves one thread. -/
def setThread (state : State τ β type) (thread : τ) (next : ThreadState β type) :
    State τ β type :=
  { state with threads := Function.update state.threads thread next }

@[simp] theorem setThread_self (state : State τ β type) (thread : τ)
    (next : ThreadState β type) : (state.setThread thread next).threads thread = next :=
  Function.update_self ..

theorem setThread_of_ne (state : State τ β type) {thread other : τ} (different : other ≠ thread)
    (next : ThreadState β type) :
    (state.setThread thread next).threads other = state.threads other :=
  Function.update_of_ne different ..

@[simp] theorem setThread_queue (state : State τ β type) (thread : τ)
    (next : ThreadState β type) : (state.setThread thread next).queue = state.queue := rfl

@[simp] theorem setThread_setThread (state : State τ β type) (thread : τ)
    (first second : ThreadState β type) :
    (state.setThread thread first).setThread thread second = state.setThread thread second := by
  simp only [setThread, Function.update_idem]

end State

/-- The compare-and-swap of `push_tqueue` succeeds: `position` is reserved. -/
def reserve (state : State τ β type) (thread : τ) (value : Element β type) (position : Word) :
    State τ β type :=
  State.setThread { state with
    queue := { state.queue with qend := position + 1 }
    history := { state.history with
      reserved := state.history.reserved ++ [(thread, value)] } }
    thread (.pushCopy value position ∅)

/-- `atomic_store_explicit(&slot->seq, end + 1, memory_order_release)`. -/
def publish (state : State τ β type) (thread : τ) (position : Word) : State τ β type :=
  State.setThread { state with
    queue := state.queue.setSlot position
      { state.queue.slotAt position with seq := position + 1 } }
    thread .idle

/-- The compare-and-swap of `pop_tqueue` succeeds: `position` is claimed. -/
def claim (state : State τ β type) (thread : τ) (dst : Element β type) (position : Word) :
    State τ β type :=
  State.setThread { state with
    queue := { state.queue with qat := position + 1 }
    history := { state.history with
      claimed := state.history.claimed ++ [(thread, position)] } }
    thread (.popCopy dst position ∅)

/-- `atomic_store_explicit(&slot->seq, at + queue->capacity, memory_order_release)`. -/
def release (state : State τ β type) (thread : τ) (dst : Element β type) (position : Word) :
    State τ β type :=
  State.setThread { state with
    queue := state.queue.setSlot position
      { state.queue.slotAt position with seq := position + state.queue.capacity }
    history := { state.history with
      popped := state.history.popped ++ [⟨position, thread, dst⟩] } }
    thread .idle

/-- One byte of `memcpy(dst, value, queue->type)` in `push_tqueue`. -/
def writeByte (state : State τ β type) (thread : τ) (value : Element β type) (position : Word)
    (copied : Finset (Fin type)) (byte : Fin type) : State τ β type :=
  let slot := state.queue.slotAt position
  State.setThread { state with
    queue := state.queue.setSlot position
      { slot with data := Function.update slot.data byte (value byte) } }
    thread (.pushCopy value position (insert byte copied))

/-- One byte of `memcpy(dst, slot->data, queue->type)` in `pop_tqueue`. -/
def readByte (state : State τ β type) (thread : τ) (dst : Element β type) (position : Word)
    (copied : Finset (Fin type)) (byte : Fin type) : State τ β type :=
  state.setThread thread
    (.popCopy (Function.update dst byte ((state.queue.slotAt position).data byte)) position
      (insert byte copied))

/-- The next atomic step of a thread. The test of `diff` is local, so it is
taken together with the step that follows it. A failed compare-and-swap loads
the counter into its `expected` argument, as the reload does. -/
def advance (state : State τ β type) (thread : τ) (attempted : Bool) :
    Option (State τ β type) :=
  match state.threads thread with
  | .idle => none
  | .pushLoadEnd value =>
      some (state.setThread thread (.pushLoadSeq value state.queue.qend))
  | .pushLoadSeq value position =>
      some (state.setThread thread (.pushTest value position (state.queue.slotAt position).seq))
  | .pushTest value position seq =>
      let diff := (seq - position).toInt
      if diff = 0 then
        if attempted ∧ state.queue.qend = position then
          some (reserve state thread value position)
        else some (state.setThread thread (.pushLoadSeq value state.queue.qend))
      else if diff < 0 then some (state.setThread thread .idle)
      else some (state.setThread thread (.pushLoadSeq value state.queue.qend))
  | .pushCopy _ position copied =>
      if copied = Finset.univ then some (publish state thread position) else none
  | .popLoadAt dst =>
      some (state.setThread thread (.popLoadSeq dst state.queue.qat))
  | .popLoadSeq dst position =>
      some (state.setThread thread (.popTest dst position (state.queue.slotAt position).seq))
  | .popTest dst position seq =>
      let diff := (seq - (position + 1)).toInt
      if diff = 0 then
        if attempted ∧ state.queue.qat = position then
          some (claim state thread dst position)
        else some (state.setThread thread (.popLoadSeq dst state.queue.qat))
      else if diff < 0 then some (state.setThread thread .idle)
      else some (state.setThread thread (.popLoadSeq dst state.queue.qat))
  | .popCopy dst position copied =>
      if copied = Finset.univ then some (release state thread dst position) else none

/-- One step of one thread; `none` when the thread cannot take it. -/
def step (state : State τ β type) : Action τ β type → Option (State τ β type)
  | .callPush thread value =>
      match state.threads thread with
      | .idle => some (state.setThread thread (.pushLoadEnd value))
      | _ => none
  | .callPop thread dst =>
      match state.threads thread with
      | .idle => some (state.setThread thread (.popLoadAt dst))
      | _ => none
  | .advance thread attempted => advance state thread attempted
  | .copyByte thread byte =>
      match state.threads thread with
      | .pushCopy value position copied =>
          some (writeByte state thread value position copied byte)
      | .popCopy dst position copied => some (readByte state thread dst position copied byte)
      | _ => none

end ThreadQueue

end TellyDB.Utils
