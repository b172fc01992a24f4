import TellyDB.Utils.ThreadQueue.Steps

/-!
Owns the bounded queue used by one thread at a time: what a complete call of `push_tqueue` or
`pop_tqueue` does, and for which queues a sequence of calls is that of a bounded FIFO. Counters
wrap.
-/

namespace TellyDB.Utils.ThreadQueue

open Lib Lib.Transition

variable {τ β : Type} {type : Nat}

/-! ## Complete calls -/

/-- `push_tqueue` while no other thread works on the queue. A positive `diff` stays as it is, so
the loop goes on for ever. -/
def pushTqueue (queue : ThreadQueue β type) (value : Element β type) :
    Option (ThreadQueue β type × Bool) :=
  let slot := queue.slotAt queue.qend
  let diff := (slot.seq - queue.qend).toInt
  if diff = 0 then
    some ({ queue with qend := queue.qend + 1 }.setSlot queue.qend ⟨queue.qend + 1, value⟩, true)
  else if diff < 0 then some (queue, false)
  else none

/-- `pop_tqueue` while no other thread works on the queue, with the element that it copies. -/
def popTqueue (queue : ThreadQueue β type) :
    Option (ThreadQueue β type × Option (Element β type)) :=
  let slot := queue.slotAt queue.qat
  let diff := (slot.seq - (queue.qat + 1)).toInt
  if diff = 0 then
    some ({ queue with qat := queue.qat + 1 }.setSlot queue.qat
      { slot with seq := queue.qat + queue.capacity }, some slot.data)
  else if diff < 0 then some (queue, none)
  else none

theorem pushTqueue_capacity {queue next : ThreadQueue β type} {value : Element β type}
    {accepted : Bool} (pushed : pushTqueue queue value = some (next, accepted)) :
    next.capacity = queue.capacity := by
  simp only [pushTqueue] at pushed
  split_ifs at pushed
  · cases pushed
    rfl
  · cases pushed
    rfl

theorem popTqueue_capacity {queue next : ThreadQueue β type} {element : Option (Element β type)}
    (popped : popTqueue queue = some (next, element)) : next.capacity = queue.capacity := by
  simp only [popTqueue] at popped
  split_ifs at popped
  · cases popped
    rfl
  · cases popped
    rfl

theorem slotAt_setSlot (queue : ThreadQueue β type) (position word : Word)
    (slot : ThreadQueueSlot β type) :
    (queue.setSlot position slot).slotAt word =
      if queue.slotIndex word = queue.slotIndex position then slot else queue.slotAt word := by
  show Function.update queue.slots (queue.slotIndex position) slot (queue.slotIndex word) = _
  rw [Function.update_apply]
  rfl

@[simp] theorem slotAt_setSlot_self (queue : ThreadQueue β type) (position : Word)
    (slot : ThreadQueueSlot β type) : (queue.setSlot position slot).slotAt position = slot := by
  rw [slotAt_setSlot, if_pos rfl]

@[simp] theorem setSlot_setSlot (queue : ThreadQueue β type) (position : Word)
    (first second : ThreadQueueSlot β type) :
    (queue.setSlot position first).setSlot position second = queue.setSlot position second := by
  simp only [setSlot, slotIndex, Function.update_idem]

/-! ### The steps of a call -/

/-- One more byte of an element is copied. -/
theorem update_copied {target source : Element β type} {copied : Finset (Fin type)}
    (byte : Fin type) (held : ∀ other ∈ copied, target other = source other) :
    ∀ other ∈ insert byte copied, Function.update target byte (source byte) other =
      source other := by
  intro other member
  rw [Function.update_apply]
  split
  · next same => rw [same]
  · next different => exact held other (Finset.mem_of_mem_insert_of_ne member different)

section Steps

variable [DecidableEq τ] {thread : τ} {start state next : State τ β type}
  {action : Action τ β type} {actions : List (Action τ β type)} {value dst : Element β type}

/-- A step inside of a call of the thread. -/
def Within (thread : τ) : Action τ β type → Prop
  | .advance other _ => other = thread
  | .copyByte other _ => other = thread
  | _ => False

/-- How far `push_tqueue` is since it was called in the state `start`, undisturbed. -/
def Pushing (start : State τ β type) (thread : τ) (value : Element β type)
    (state : State τ β type) : Prop :=
  match state.threads thread with
  | .pushLoadEnd held =>
      held = value ∧ state.queue = start.queue ∧ state.history = start.history
  | .pushLoadSeq held position =>
      held = value ∧ position = start.queue.qend ∧ state.queue = start.queue ∧
        state.history = start.history
  | .pushTest held position seq =>
      held = value ∧ position = start.queue.qend ∧
        seq = (start.queue.slotAt start.queue.qend).seq ∧ state.queue = start.queue ∧
        state.history = start.history
  | .pushCopy held position copied =>
      held = value ∧ position = start.queue.qend ∧
        ((start.queue.slotAt start.queue.qend).seq - start.queue.qend).toInt = 0 ∧
        (∃ slot, (∀ byte ∈ copied, slot.data byte = value byte) ∧
          state.queue =
            { start.queue with qend := start.queue.qend + 1 }.setSlot start.queue.qend slot) ∧
        state.history = { start.history with
          reserved := start.history.reserved ++ [(thread, value)] }
  | .idle =>
      ∃ accepted, pushTqueue start.queue value = some (state.queue, accepted) ∧
        state.history = { start.history with
          reserved := start.history.reserved ++ if accepted then [(thread, value)] else [] }
  | _ => False

theorem Pushing.step (pushing : Pushing start thread value state) (within : Within thread action)
    (stepped : ThreadQueue.step state action = some next) : Pushing start thread value next := by
  cases action with
  | callPush => cases within
  | callPop => cases within
  | copyByte other byte =>
      cases within
      unfold Pushing at pushing
      cases stands : state.threads thread with
      | pushCopy held position copied =>
          simp only [ThreadQueue.step, stands, Option.some.injEq] at stepped pushing
          subst stepped
          obtain ⟨rfl, rfl, offered, ⟨slot, written, queued⟩, recorded⟩ := pushing
          simp only [Pushing, writeByte, State.setThread_self, State.setThread_queue]
          simp only [queued, slotAt_setSlot_self, setSlot_setSlot, true_and]
          exact ⟨offered, ⟨_, update_copied byte written, rfl⟩, recorded⟩
      | _ => simp [ThreadQueue.step, stands] at stepped pushing
  | advance other attempted =>
      cases within
      unfold Pushing at pushing
      cases stands : state.threads thread with
      | idle => simp [ThreadQueue.step, advance, stands] at stepped
      | pushLoadEnd held =>
          simp only [ThreadQueue.step, advance, stands, Option.some.injEq] at stepped pushing
          subst stepped
          obtain ⟨rfl, queued, recorded⟩ := pushing
          simp only [Pushing, State.setThread_self, State.setThread_queue, queued, true_and]
          exact recorded
      | pushLoadSeq held position =>
          simp only [ThreadQueue.step, advance, stands, Option.some.injEq] at stepped pushing
          subst stepped
          obtain ⟨rfl, rfl, queued, recorded⟩ := pushing
          simp only [Pushing, State.setThread_self, State.setThread_queue, queued, true_and]
          exact recorded
      | pushTest held position seq =>
          simp only [ThreadQueue.step, advance, stands] at stepped pushing
          obtain ⟨rfl, rfl, rfl, queued, recorded⟩ := pushing
          split_ifs at stepped with offered taken full
          · cases stepped
            simp only [Pushing, reserve, State.setThread_self, State.setThread_queue, queued,
              true_and]
            refine ⟨offered, ⟨start.queue.slotAt start.queue.qend, by simp, ?_⟩, ?_⟩
            · exact (setSlot_slotAt _ _).symm
            · rw [State.setThread, recorded]
          · cases stepped
            simp only [Pushing, State.setThread_self, State.setThread_queue, queued, true_and]
            exact recorded
          · cases stepped
            simp only [Pushing, State.setThread_self, State.setThread_queue, queued]
            refine ⟨false, ?_, ?_⟩
            · simp only [pushTqueue, if_neg offered, if_pos full]
            · simp only [Bool.false_eq_true, if_false, List.append_nil]
              exact recorded
          · cases stepped
            simp only [Pushing, State.setThread_self, State.setThread_queue, queued, true_and]
            exact recorded
      | pushCopy held position copied =>
          simp only [ThreadQueue.step, advance, stands] at stepped pushing
          obtain ⟨rfl, rfl, offered, ⟨slot, written, queued⟩, recorded⟩ := pushing
          split_ifs at stepped with complete
          cases stepped
          have element : slot.data = held := funext fun byte =>
            written byte (by rw [complete]; exact Finset.mem_univ byte)
          simp only [Pushing, publish, State.setThread_self, State.setThread_queue, queued,
            slotAt_setSlot_self, setSlot_setSlot, element]
          refine ⟨true, ?_, recorded⟩
          simp only [pushTqueue, if_pos offered]
      | _ => simp [stands] at pushing

/-- A complete call of `push_tqueue` that no other thread disturbs. -/
theorem push_complete {final : State τ β type} (idle : start.threads thread = .idle)
    (ran : run ThreadQueue.step start (.callPush thread value :: actions) = some final)
    (alone : ∀ action ∈ actions, Within thread action) (returned : final.threads thread = .idle) :
    ∃ accepted, pushTqueue start.queue value = some (final.queue, accepted) ∧
      final.history = { start.history with
        reserved := start.history.reserved ++ if accepted then [(thread, value)] else [] } := by
  obtain ⟨called, stepped, ran⟩ := run_cons_eq_some.mp ran
  simp only [ThreadQueue.step, idle, Option.some.injEq] at stepped
  have pushing : Pushing start thread value called := by
    subst stepped
    simp only [Pushing, State.setThread_self, State.setThread_queue, true_and]
    rfl
  have reached : Pushing start thread value final :=
    run_invariant_among (fun _ action member _ pushing stepped =>
      pushing.step (alone action member) stepped) pushing ran
  unfold Pushing at reached
  rw [returned] at reached
  exact reached

/-- How far `pop_tqueue` is since it was called in the state `start`, undisturbed. -/
def Popping (start : State τ β type) (thread : τ) (state : State τ β type) : Prop :=
  match state.threads thread with
  | .popLoadAt _ => state.queue = start.queue ∧ state.history = start.history
  | .popLoadSeq _ position =>
      position = start.queue.qat ∧ state.queue = start.queue ∧ state.history = start.history
  | .popTest _ position seq =>
      position = start.queue.qat ∧ seq = (start.queue.slotAt start.queue.qat).seq ∧
        state.queue = start.queue ∧ state.history = start.history
  | .popCopy dst position copied =>
      position = start.queue.qat ∧
        ((start.queue.slotAt start.queue.qat).seq - (start.queue.qat + 1)).toInt = 0 ∧
        (∀ byte ∈ copied, dst byte = (start.queue.slotAt start.queue.qat).data byte) ∧
        state.queue = { start.queue with qat := start.queue.qat + 1 } ∧
        state.history = { start.history with
          claimed := start.history.claimed ++ [(thread, start.queue.qat)] }
  | .idle =>
      ∃ element, popTqueue start.queue = some (state.queue, element) ∧
        state.history = { start.history with
          claimed := start.history.claimed ++
            (element.map fun _ => (thread, start.queue.qat)).toList
          popped := start.history.popped ++
            (element.map fun value => ⟨start.queue.qat, thread, value⟩).toList }
  | _ => False

theorem Popping.step (popping : Popping start thread state) (within : Within thread action)
    (stepped : ThreadQueue.step state action = some next) : Popping start thread next := by
  cases action with
  | callPush => cases within
  | callPop => cases within
  | copyByte other byte =>
      cases within
      unfold Popping at popping
      cases stands : state.threads thread with
      | popCopy dst position copied =>
          simp only [ThreadQueue.step, stands, Option.some.injEq] at stepped popping
          subst stepped
          obtain ⟨rfl, offered, read, queued, recorded⟩ := popping
          simp only [Popping, readByte, State.setThread_self, State.setThread_queue, queued,
            true_and]
          exact ⟨offered, update_copied byte read, recorded⟩
      | _ => simp [ThreadQueue.step, stands] at stepped popping
  | advance other attempted =>
      cases within
      unfold Popping at popping
      cases stands : state.threads thread with
      | idle => simp [ThreadQueue.step, advance, stands] at stepped
      | popLoadAt dst =>
          simp only [ThreadQueue.step, advance, stands, Option.some.injEq] at stepped popping
          subst stepped
          obtain ⟨queued, recorded⟩ := popping
          simp only [Popping, State.setThread_self, State.setThread_queue, queued, true_and]
          exact recorded
      | popLoadSeq dst position =>
          simp only [ThreadQueue.step, advance, stands, Option.some.injEq] at stepped popping
          subst stepped
          obtain ⟨rfl, queued, recorded⟩ := popping
          simp only [Popping, State.setThread_self, State.setThread_queue, queued, true_and]
          exact recorded
      | popTest dst position seq =>
          simp only [ThreadQueue.step, advance, stands] at stepped popping
          obtain ⟨rfl, rfl, queued, recorded⟩ := popping
          split_ifs at stepped with offered taken empty
          · cases stepped
            simp only [Popping, claim, State.setThread_self, State.setThread_queue, queued,
              true_and]
            refine ⟨offered, by simp, ?_⟩
            rw [State.setThread, recorded]
          · cases stepped
            simp only [Popping, State.setThread_self, State.setThread_queue, queued, true_and]
            exact recorded
          · cases stepped
            simp only [Popping, State.setThread_self, State.setThread_queue, queued]
            refine ⟨none, ?_, ?_⟩
            · simp only [popTqueue, if_neg offered, if_pos empty]
            · simp only [Option.map_none, Option.toList_none, List.append_nil]
              exact recorded
          · cases stepped
            simp only [Popping, State.setThread_self, State.setThread_queue, queued, true_and]
            exact recorded
      | popCopy dst position copied =>
          simp only [ThreadQueue.step, advance, stands] at stepped popping
          obtain ⟨rfl, offered, read, queued, recorded⟩ := popping
          split_ifs at stepped with complete
          cases stepped
          have element : dst = (start.queue.slotAt start.queue.qat).data := funext fun byte =>
            read byte (by rw [complete]; exact Finset.mem_univ byte)
          simp only [Popping, release, State.setThread_self, State.setThread_queue, queued]
          refine ⟨some dst, ?_, ?_⟩
          · rw [popTqueue, element]
            simp only [if_pos offered]
            rfl
          · simp only [State.setThread, recorded, Option.map_some, Option.toList_some]
      | _ => simp [stands] at popping

/-- A complete call of `pop_tqueue` that no other thread disturbs. -/
theorem pop_complete {final : State τ β type} (idle : start.threads thread = .idle)
    (ran : run ThreadQueue.step start (.callPop thread dst :: actions) = some final)
    (alone : ∀ action ∈ actions, Within thread action) (returned : final.threads thread = .idle) :
    ∃ element, popTqueue start.queue = some (final.queue, element) ∧
      final.history = { start.history with
        claimed := start.history.claimed ++
          (element.map fun _ => (thread, start.queue.qat)).toList
        popped := start.history.popped ++
          (element.map fun value => ⟨start.queue.qat, thread, value⟩).toList } := by
  obtain ⟨called, stepped, ran⟩ := run_cons_eq_some.mp ran
  simp only [ThreadQueue.step, idle, Option.some.injEq] at stepped
  have popping : Popping start thread called := by
    subst stepped
    simp only [Popping, State.setThread_self, State.setThread_queue, true_and]
    rfl
  have reached : Popping start thread final :=
    run_invariant_among (fun _ action member _ popping stepped =>
      popping.step (alone action member) stepped) popping ran
  unfold Popping at reached
  rw [returned] at reached
  exact reached

end Steps

/-! ## A bounded FIFO -/

/-- A call of one thread that uses the queue alone. -/
inductive QueueCall (β : Type) (type : Nat) where
  | push (value : Element β type)
  | pop

/-- What a call returns: `NULL` or not, `false` or the element that was copied. -/
inductive QueueResult (β : Type) (type : Nat) where
  | pushed (accepted : Bool)
  | popped (element : Option (Element β type))

/-- A complete call. -/
def callQueue (queue : ThreadQueue β type) :
    QueueCall β type → Option (ThreadQueue β type × QueueResult β type)
  | .push value => (pushTqueue queue value).map fun called => (called.1, .pushed called.2)
  | .pop => (popTqueue queue).map fun called => (called.1, .popped called.2)

/-- A FIFO for at most `capacity` elements: a push fails if it is full, a pop if it is empty. -/
def callFifo (capacity : Nat) (stored : List (Element β type)) :
    QueueCall β type → List (Element β type) × QueueResult β type
  | .push value =>
      if stored.length = capacity then (stored, .pushed false)
      else (stored ++ [value], .pushed true)
  | .pop =>
      match stored with
      | [] => ([], .popped none)
      | value :: rest => (rest, .popped (some value))

/-- A queue beside the FIFO of its capacity, with what the calls of each returned. -/
structure Paired (β : Type) (type : Nat) where
  queue : ThreadQueue β type
  stored : List (Element β type)
  results : List (QueueResult β type)
  expected : List (QueueResult β type)

/-- The same call of both. -/
def callBoth (state : Paired β type) (call : QueueCall β type) : Option (Paired β type) :=
  (callQueue state.queue call).map fun called =>
    let fifo := callFifo state.queue.capacity.toNat state.stored call
    ⟨called.1, fifo.1, state.results ++ [called.2], state.expected ++ [fifo.2]⟩

/-- The queue returned what the FIFO did, and its counters tell how much is stored. -/
structure Paired.Agrees (state : Paired β type) : Prop where
  results : state.results = state.expected
  size : (estimateTqueueSize state.queue).toNat = state.stored.length

/-- The call is not a push on a queue of capacity one that holds an element. -/
def Distinguished (state : Paired β type) : QueueCall β type → Prop
  | .push _ => state.queue.capacity ≠ 1 ∨ state.stored = []
  | .pop => True

/-! ### What the slots hold -/

/-- The elements lie in the slots from `at` on. A slot with an element is one ahead of its
position, a slot without one is at the position that will use it next. -/
structure Stores (queue : ThreadQueue β type) (stored : List (Element β type)) : Prop where
  power : ∃ k, queue.capacity.toNat = 2 ^ k
  bound : stored.length ≤ queue.capacity.toNat
  qend : queue.qend = queue.qat + BitVec.ofNat 64 stored.length
  full : ∀ index value, stored[index]? = some value →
    queue.slotAt (queue.qat + BitVec.ofNat 64 index) =
      ⟨queue.qat + BitVec.ofNat 64 index + 1, value⟩
  free : ∀ index, stored.length ≤ index → index < queue.capacity.toNat →
    (queue.slotAt (queue.qat + BitVec.ofNat 64 index)).seq = queue.qat + BitVec.ofNat 64 index

section Slots

variable {queue : ThreadQueue β type} {stored : List (Element β type)} {value : Element β type}

/-- The slot of a position some steps on: the capacity divides the range of the counters. -/
theorem slotIndex_add (power : ∃ k, queue.capacity.toNat = 2 ^ k) (word : Word) (steps : Nat) :
    queue.slotIndex (word + BitVec.ofNat 64 steps) =
      (word.toNat + steps) % queue.capacity.toNat := by
  rw [slotIndex_of_pow power]
  obtain ⟨k, power⟩ := power
  have small : 2 ^ k < 2 ^ 64 := power ▸ queue.capacity.isLt
  have divides : 2 ^ k ∣ 2 ^ 64 :=
    Nat.pow_dvd_pow 2 ((Nat.pow_lt_pow_iff_right (by decide)).mp small).le
  rw [power, BitVec.toNat_add, BitVec.toNat_ofNat, Nat.mod_mod_of_dvd _ divides, Nat.add_mod,
    Nat.mod_mod_of_dvd _ divides, ← Nat.add_mod]

/-- Positions less than one turn apart have slots of their own, also where the counter wraps. -/
theorem slotIndex_add_inj (power : ∃ k, queue.capacity.toNat = 2 ^ k) (word : Word)
    {one other : Nat} (oneBound : one < queue.capacity.toNat)
    (otherBound : other < queue.capacity.toNat) :
    queue.slotIndex (word + BitVec.ofNat 64 one) = queue.slotIndex (word + BitVec.ofNat 64 other) ↔
      one = other := by
  rw [slotIndex_add power, slotIndex_add power]
  constructor
  · intro same
    have equal := Circular.eq_of_mod_eq (by omega) (by omega) same
    omega
  · intro same
    rw [same]

/-- One turn later a position has the same slot. -/
theorem slotIndex_turn (power : ∃ k, queue.capacity.toNat = 2 ^ k) (word : Word) :
    queue.slotIndex (word + queue.capacity) = queue.slotIndex word := by
  have turn := slotIndex_add power word queue.capacity.toNat
  rw [BitVec.ofNat_toNat, BitVec.setWidth_eq, Nat.add_mod_right] at turn
  rw [turn, slotIndex_of_pow power]

theorem add_ofNat_succ (word : Word) (steps : Nat) :
    word + BitVec.ofNat 64 (steps + 1) = word + BitVec.ofNat 64 steps + 1 := by
  rw [BitVec.ofNat_add, BitVec.add_assoc]
  rfl

theorem succ_add_ofNat (word : Word) (steps : Nat) :
    word + 1 + BitVec.ofNat 64 steps = word + BitVec.ofNat 64 (steps + 1) := by
  rw [add_ofNat_succ, BitVec.add_assoc, BitVec.add_comm 1, BitVec.add_assoc]

/-- A queue with room takes the element behind the others. -/
theorem Stores.push (stores : Stores queue stored) (room : stored.length < queue.capacity.toNat)
    (value : Element β type) :
    ∃ next, pushTqueue queue value = some (next, true) ∧ Stores next (stored ++ [value]) := by
  obtain ⟨power, bound, qend, full, free⟩ := stores
  have offered : ((queue.slotAt queue.qend).seq - queue.qend).toInt = 0 := by
    rw [qend, free _ (Nat.le_refl _) room, BitVec.sub_self]
    rfl
  refine ⟨_, if_pos offered, ?_⟩
  have apart : ∀ index, index ≠ stored.length → index < queue.capacity.toNat →
      queue.slotIndex (queue.qat + BitVec.ofNat 64 index) ≠ queue.slotIndex queue.qend := by
    intro index different small same
    rw [qend, slotIndex_add_inj power _ small room] at same
    exact different same
  constructor
  case power => exact power
  case bound =>
    rw [List.length_append]
    exact room
  case qend =>
    show queue.qend + 1 = queue.qat + _
    rw [List.length_append, List.length_singleton, add_ofNat_succ, qend]
  case full =>
    intro index found held
    rw [slotAt_setSlot]
    rcases Nat.lt_or_ge index stored.length with earlier | later
    · rw [List.getElem?_append_left earlier] at held
      exact (if_neg (apart index (by omega) (by omega))).trans (full index found held)
    · have last : index = stored.length := by
        have small := (List.getElem?_eq_some_iff.mp held).1
        rw [List.length_append, List.length_singleton] at small
        omega
      subst last
      rw [List.getElem?_append_right (Nat.le_refl _), Nat.sub_self] at held
      cases held
      rw [qend]
      exact if_pos rfl
  case free =>
    intro index beyond small
    rw [List.length_append, List.length_singleton] at beyond
    rw [slotAt_setSlot]
    have other := apart index (by omega) small
    exact (congrArg ThreadQueueSlot.seq (if_neg other)).trans (free index (by omega) small)

/-- What a push finds in a full queue: the sequence number of the first element. -/
theorem Stores.full_diff (stores : Stores queue stored)
    (full : stored.length = queue.capacity.toNat) (nonempty : stored ≠ []) :
    (queue.slotAt queue.qend).seq - queue.qend = 1 - queue.capacity := by
  have turn : queue.qend = queue.qat + queue.capacity := by
    rw [stores.qend, full, BitVec.ofNat_toNat, BitVec.setWidth_eq]
  obtain ⟨first, rest, rfl⟩ := List.exists_cons_of_ne_nil nonempty
  have held := stores.full 0 first rfl
  rw [BitVec.add_zero] at held
  have slot : queue.slotAt queue.qend = queue.slotAt queue.qat := by
    rw [slotAt, slotAt, turn, slotIndex_turn stores.power]
  rw [slot, held, turn]
  bv_omega

/-- A full queue of more than one slot refuses. -/
theorem Stores.push_full (stores : Stores queue stored)
    (full : stored.length = queue.capacity.toNat) (several : queue.capacity ≠ 1)
    (value : Element β type) : pushTqueue queue value = some (queue, false) := by
  obtain ⟨k, power⟩ := stores.power
  have positive := Nat.two_pow_pos k
  have nonempty : stored ≠ [] := by
    intro empty
    rw [empty, power] at full
    exact absurd full positive.ne
  have small : 2 ^ k ≤ 2 ^ 63 := by
    have bound : 2 ^ k < 2 ^ 64 := power ▸ queue.capacity.isLt
    exact Nat.pow_le_pow_right (by decide)
      (Nat.le_of_lt_succ ((Nat.pow_lt_pow_iff_right (by decide)).mp bound))
  have negative : ((1 : Word) - queue.capacity).toInt < 0 := by
    have other : queue.capacity.toNat ≠ 1 := fun one => several (BitVec.eq_of_toNat_eq one)
    have below : ((1 : Word) - queue.capacity).toNat = 2 ^ 64 + 1 - queue.capacity.toNat := by
      bv_omega
    rw [BitVec.toInt_eq_toNat_cond, below]
    split <;> omega
  rw [pushTqueue]
  simp only [stores.full_diff full nonempty, if_pos negative, if_neg negative.ne]

/-- A queue of one slot takes an element into the slot that holds one. -/
theorem Stores.push_single (stores : Stores queue stored) (single : queue.capacity = 1)
    (nonempty : stored ≠ []) (value : Element β type) :
    ∃ next, pushTqueue queue value = some (next, true) := by
  have full : stored.length = queue.capacity.toNat := by
    have positive := List.length_pos_of_ne_nil nonempty
    have bound := stores.bound
    rw [single] at bound ⊢
    exact Nat.le_antisymm bound positive
  have offered : ((queue.slotAt queue.qend).seq - queue.qend).toInt = 0 := by
    rw [stores.full_diff full nonempty, single]
    rfl
  exact ⟨_, if_pos offered⟩

/-- A queue gives the first element. -/
theorem Stores.pop (stores : Stores queue (value :: stored)) :
    ∃ next, popTqueue queue = some (next, some value) ∧ Stores next stored := by
  obtain ⟨power, bound, qend, full, free⟩ := stores
  have first := full 0 value rfl
  rw [BitVec.add_zero] at first
  have offered : ((queue.slotAt queue.qat).seq - (queue.qat + 1)).toInt = 0 := by
    rw [first, BitVec.sub_self]
    rfl
  have taken : popTqueue queue = some ({ queue with qat := queue.qat + 1 }.setSlot queue.qat
      ⟨queue.qat + queue.capacity, value⟩, some value) := by
    refine (if_pos offered).trans ?_
    simp only [first]
  rw [List.length_cons] at bound
  refine ⟨_, taken, ?_⟩
  have apart : ∀ index, index + 1 < queue.capacity.toNat →
      queue.slotIndex (queue.qat + BitVec.ofNat 64 (index + 1)) ≠
        queue.slotIndex queue.qat := by
    intro index small same
    have start : queue.qat = queue.qat + BitVec.ofNat 64 0 := (BitVec.add_zero _).symm
    nth_rewrite 2 [start] at same
    rw [slotIndex_add_inj power _ small (by omega)] at same
    omega
  constructor
  case power => exact power
  case bound =>
    show stored.length ≤ queue.capacity.toNat
    omega
  case qend =>
    show queue.qend = queue.qat + 1 + _
    rw [qend, succ_add_ofNat, List.length_cons]
  case full =>
    intro index found held
    have small := (List.getElem?_eq_some_iff.mp held).1
    show ThreadQueue.slotAt _ (queue.qat + 1 + _) = ⟨queue.qat + 1 + _ + 1, found⟩
    rw [succ_add_ofNat, slotAt_setSlot]
    exact (if_neg (apart index (by omega))).trans (full (index + 1) found held)
  case free =>
    intro index beyond small
    have small : index < queue.capacity.toNat := small
    show (ThreadQueue.slotAt _ (queue.qat + 1 + _)).seq = queue.qat + 1 + _
    rw [succ_add_ofNat, slotAt_setSlot]
    rcases Nat.lt_or_ge (index + 1) queue.capacity.toNat with inner | last
    · exact (congrArg ThreadQueueSlot.seq (if_neg (apart index inner))).trans
        (free (index + 1) (by rw [List.length_cons]; omega) inner)
    · -- The slot that was emptied waits for the position one turn later.
      have turn : queue.qat + BitVec.ofNat 64 (index + 1) = queue.qat + queue.capacity := by
        rw [show index + 1 = queue.capacity.toNat by omega, BitVec.ofNat_toNat,
          BitVec.setWidth_eq]
      rw [turn]
      exact congrArg ThreadQueueSlot.seq (if_pos (slotIndex_turn power queue.qat))

/-- An empty queue gives nothing. -/
theorem Stores.pop_empty (stores : Stores queue []) : popTqueue queue = some (queue, none) := by
  obtain ⟨k, power⟩ := stores.power
  have held := stores.free 0 (Nat.le_refl _) (power ▸ Nat.two_pow_pos k)
  rw [BitVec.add_zero] at held
  have behind : (queue.slotAt queue.qat).seq - (queue.qat + 1) = -1 := by
    rw [held]
    bv_omega
  rw [popTqueue]
  simp only [behind]
  rfl

theorem stores_create {capacity align : Word} {memory : Nat → ThreadQueueSlot β type}
    (created : createTqueue capacity align memory = some queue) :
    queue.capacity = capacity ∧ Stores queue [] := by
  obtain ⟨nonzero, checked, rfl⟩ := createTqueue_eq_some created
  have power := capacity_isPowerOfTwo nonzero checked
  refine ⟨rfl, power, Nat.zero_le _, rfl, by simp, ?_⟩
  intro index _ small
  have small : index < capacity.toNat := small
  have seq := foldl_initState_seq _ memory index ((mem_initOrder _ index).mpr small)
  rw [slotAt, slotIndex_add power]
  show (((initOrder capacity.toNat).foldl initState memory)
    ((0 + index) % capacity.toNat)).seq = 0 + BitVec.ofNat 64 index
  rw [Nat.zero_add, Nat.mod_eq_of_lt small, seq]
  exact (BitVec.zero_add _).symm

/-- The two counters tell how much is stored. -/
theorem Stores.estimate (stores : Stores queue stored) :
    (estimateTqueueSize queue).toNat = stored.length := by
  have small := queue.capacity.isLt
  have bound := stores.bound
  rw [estimateTqueueSize, stores.qend, BitVec.add_comm, BitVec.add_sub_cancel,
    BitVec.toNat_ofNat]
  exact Nat.mod_eq_of_lt (by omega)

end Slots

/-! ### Runs -/

section Runs

variable {state next : Paired β type} {call : QueueCall β type}

/-- What the calls keep. -/
def Paired.Matches (state : Paired β type) : Prop :=
  Stores state.queue state.stored ∧ state.results = state.expected

theorem Paired.Matches.agrees (kept : state.Matches) : state.Agrees :=
  ⟨kept.2, kept.1.estimate⟩

/-- A distinguished call returns, with what the FIFO does. -/
theorem Stores.callQueue (stores : Stores state.queue state.stored)
    (distinguished : Distinguished state call) :
    ∃ next, ThreadQueue.callQueue state.queue call =
        some (next, (callFifo state.queue.capacity.toNat state.stored call).2) ∧
      Stores next (callFifo state.queue.capacity.toNat state.stored call).1 := by
  cases call with
  | push value =>
      by_cases full : state.stored.length = state.queue.capacity.toNat
      · have several : state.queue.capacity ≠ 1 := by
          rcases distinguished with several | empty
          · exact several
          · intro single
            rw [empty, single] at full
            cases full
        simp only [ThreadQueue.callQueue, callFifo, stores.push_full full several value,
          if_pos full]
        exact ⟨state.queue, rfl, stores⟩
      · have bound := stores.bound
        obtain ⟨next, pushed, holds⟩ := stores.push (by omega) value
        simp only [ThreadQueue.callQueue, callFifo, pushed, if_neg full]
        exact ⟨next, rfl, holds⟩
  | pop =>
      cases held : state.stored with
      | nil =>
          rw [held] at stores
          simp only [ThreadQueue.callQueue, callFifo, stores.pop_empty]
          exact ⟨state.queue, rfl, stores⟩
      | cons value rest =>
          rw [held] at stores
          obtain ⟨next, popped, holds⟩ := stores.pop
          simp only [ThreadQueue.callQueue, callFifo, popped]
          exact ⟨next, rfl, holds⟩

theorem Paired.Matches.callBoth (kept : state.Matches) (distinguished : Distinguished state call) :
    ∃ next, ThreadQueue.callBoth state call = some next ∧ next.Matches := by
  obtain ⟨stores, same⟩ := kept
  obtain ⟨next, called, holds⟩ := stores.callQueue distinguished
  rw [ThreadQueue.callBoth, called, Option.map_some]
  exact ⟨_, rfl, holds, by rw [same]⟩

/-- A push on a queue of one slot that holds an element succeeds, which the FIFO's does not. -/
theorem Paired.Matches.disagrees (kept : state.Matches)
    (undistinguished : ¬Distinguished state call)
    (called : ThreadQueue.callBoth state call = some next) : ¬next.Agrees := by
  obtain ⟨stores, same⟩ := kept
  cases call with
  | pop => exact absurd trivial undistinguished
  | push value =>
      simp only [Distinguished, not_or, not_not] at undistinguished
      obtain ⟨single, nonempty⟩ := undistinguished
      obtain ⟨reached, pushed⟩ := stores.push_single single nonempty value
      have full : state.stored.length = state.queue.capacity.toNat := by
        have positive := List.length_pos_of_ne_nil nonempty
        have bound := stores.bound
        rw [single] at bound ⊢
        exact Nat.le_antisymm bound positive
      simp only [ThreadQueue.callBoth, callQueue, callFifo, pushed, if_pos full, Option.map_some,
        Option.some.injEq] at called
      subst called
      intro agrees
      have results := agrees.results
      rw [same] at results
      have last := List.append_cancel_left results
      cases last

/-- Used by one thread at a time, a queue of any capacity that `create_tqueue` accepts is a
bounded FIFO, every call of which returns, exactly as long as no element is pushed into a queue
of capacity one that holds an element. -/
theorem sequential_iff {capacity align : Word} {memory : Nat → ThreadQueueSlot β type}
    {queue : ThreadQueue β type} (created : createTqueue capacity align memory = some queue)
    (calls : List (QueueCall β type)) :
    (∀ first, first <+: calls →
      ∃ final, run ThreadQueue.callBoth ⟨queue, [], [], []⟩ first = some final ∧ final.Agrees) ↔
      Guarded ThreadQueue.callBoth Distinguished ⟨queue, [], [], []⟩ calls := by
  have initial : Paired.Matches ⟨queue, [], [], []⟩ := ⟨(stores_create created).2, rfl⟩
  have kept : ∀ (state : Paired β type) call, state.Matches → Distinguished state call →
      ∃ next, ThreadQueue.callBoth state call = some next ∧ next.Matches :=
    fun _ _ kept => kept.callBoth
  have broken : ∀ (state : Paired β type) call next, state.Matches → ¬Distinguished state call →
      ThreadQueue.callBoth state call = some next → ¬next.Agrees :=
    fun _ _ _ kept => kept.disagrees
  exact always_iff_guarded kept (fun _ kept => kept.agrees) broken initial

theorem callQueue_capacity {queue reached : ThreadQueue β type} {result : QueueResult β type}
    (called : callQueue queue call = some (reached, result)) :
    reached.capacity = queue.capacity := by
  cases call with
  | push value =>
      obtain ⟨⟨next, accepted⟩, pushed, same⟩ := Option.map_eq_some_iff.mp called
      cases same
      exact pushTqueue_capacity pushed
  | pop =>
      obtain ⟨⟨next, element⟩, popped, same⟩ := Option.map_eq_some_iff.mp called
      cases same
      exact popTqueue_capacity popped

/-- With more than one slot every call is distinguished. -/
theorem guarded_of_several (calls : List (QueueCall β type)) (several : state.queue.capacity ≠ 1) :
    Guarded callBoth Distinguished state calls := by
  induction calls generalizing state with
  | nil => trivial
  | cons call rest inductionHypothesis =>
      constructor
      · cases call with
        | push value => exact .inl several
        | pop => trivial
      · intro next called
        obtain ⟨⟨reached, result⟩, answered, rfl⟩ := Option.map_eq_some_iff.mp called
        exact inductionHypothesis (by rw [callQueue_capacity answered]; exact several)

/-- Two slots, three pushes and three pops. -/
theorem sequential_iff_two_slots : ∃ queue : ThreadQueue (BitVec 8) 1,
    createTqueue 2 8 (fun _ => ⟨0, fun _ => 0⟩) = some queue ∧
      ∀ first, first <+: [.push fun _ => 7, .push fun _ => 8, .push fun _ => 9, .pop, .pop, .pop] →
        ∃ final, run callBoth ⟨queue, [], [], []⟩ first = some final ∧ final.Agrees := by
  obtain ⟨queue, created⟩ : ∃ queue, createTqueue 2 8
      (fun _ => (⟨0, fun _ => 0⟩ : ThreadQueueSlot (BitVec 8) 1)) = some queue := ⟨_, rfl⟩
  have several : queue.capacity ≠ 1 := by
    rw [(stores_create created).1]
    decide
  exact ⟨queue, created, (sequential_iff created _).mpr (guarded_of_several _ several)⟩

/-- With one slot the second push succeeds, and then a pop does not return. -/
theorem sequential_single_slot : ∃ queue : ThreadQueue (BitVec 8) 1,
    createTqueue 1 8 (fun _ => ⟨0, fun _ => 0⟩) = some queue ∧
      (∃ final, run callBoth ⟨queue, [], [], []⟩ [.push fun _ => 7, .push fun _ => 8] =
        some final ∧ ¬final.Agrees) ∧
      run callBoth ⟨queue, [], [], []⟩ [.push fun _ => 7, .push fun _ => 8, .pop] = none := by
  refine ⟨_, rfl, ⟨_, rfl, ?_⟩, rfl⟩
  intro agrees
  cases agrees.results

end Runs

end TellyDB.Utils.ThreadQueue
