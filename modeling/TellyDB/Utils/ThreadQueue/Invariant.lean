import TellyDB.Lib.Circular
import TellyDB.Utils.ThreadQueue
import Mathlib.Algebra.Order.Ring.Nat
import Mathlib.Tactic.Linarith

/-!
Owns the invariant of the bounded queue. A position is the rank of a
reservation; as long as no counter wraps, the words of the source are the
positions themselves, and the sequence number of a slot tells which of the four
stages (being written, full, being read, free) its latest position is in.
-/

namespace TellyDB.Utils.ThreadQueue

variable {τ β : Type} {type : Nat}

/-! ## Creation -/

theorem mem_initOrder (capacity index : Nat) : index ∈ initOrder capacity ↔ index < capacity := by
  simp only [initOrder, List.mem_append, List.mem_flatMap, List.mem_range, List.mem_cons,
    List.not_mem_nil, or_false, List.mem_range'_1]
  constructor
  · rintro (⟨turn, bound, index_eq⟩ | ⟨_, bound⟩) <;> omega
  · intro bound
    by_cases unrolled : index < capacity / 4 * 4
    · exact Or.inl ⟨index / 4, by omega, by omega⟩
    · exact Or.inr ⟨by omega, by omega⟩

theorem foldl_initState_seq (order : List Nat) (memory : Nat → ThreadQueueSlot β type)
    (index : Nat) (member : index ∈ order) :
    ((order.foldl initState memory) index).seq = BitVec.ofNat 64 index := by
  induction order using List.reverseRecOn with
  | nil => cases member
  | append_singleton rest last inductionHypothesis =>
      rw [List.foldl_append, List.foldl_cons, List.foldl_nil, initState]
      by_cases same : index = last
      · rw [same, Function.update_self]
      · rw [Function.update_of_ne same]
        refine inductionHypothesis ?_
        simpa [same] using member

theorem createTqueue_eq_some {capacity align : Word} {memory : Nat → ThreadQueueSlot β type}
    {queue : ThreadQueue β type} (created : createTqueue capacity align memory = some queue) :
    capacity ≠ 0 ∧ capacity &&& (capacity - 1) = 0 ∧
      queue = { qat := 0, qend := 0,
                slots := (initOrder capacity.toNat).foldl initState memory, capacity } := by
  rw [createTqueue] at created
  split at created
  · cases created
  · next accepted =>
      push Not at accepted
      generalize (if align < 8 then 8 else align) = align at created
      simp only at created
      split at created
      · cases created
      · exact ⟨accepted.1, accepted.2, (Option.some.inj created).symm⟩

theorem capacity_isPowerOfTwo {capacity : Word} (nonzero : capacity ≠ 0)
    (checked : capacity &&& (capacity - 1) = 0) : ∃ k, capacity.toNat = 2 ^ k := by
  have positive : capacity.toNat ≠ 0 := fun zero => nonzero (BitVec.eq_of_toNat_eq zero)
  have predecessor : (capacity - 1).toNat = capacity.toNat - 1 := by bv_omega
  have held := congrArg BitVec.toNat checked
  rw [BitVec.toNat_and, predecessor] at held
  exact (Nat.and_sub_one_eq_zero_iff_isPowerOfTwo positive).mp held

/-- The mask of a power of two is a remainder. -/
theorem slotIndex_of_pow {queue : ThreadQueue β type}
    (power : ∃ k, queue.capacity.toNat = 2 ^ k) (word : Word) :
    queue.slotIndex word = word.toNat % queue.capacity.toNat := by
  obtain ⟨k, power⟩ := power
  have positive := Nat.two_pow_pos k
  have predecessor : (queue.capacity - 1).toNat = 2 ^ k - 1 := by
    rw [← power] at positive ⊢
    bv_omega
  rw [slotIndex, BitVec.toNat_and, predecessor, power, Nat.and_two_pow_sub_one_eq_mod]

/-! ## Positions -/

/-- The positions of the pops that returned. -/
def returned (state : State τ β type) : List Nat :=
  state.history.popped.map fun record => record.position.toNat

/-- The sequence number in the slot of a position. -/
def seqOf (state : State τ β type) (position : Nat) : Nat :=
  (state.queue.slots (position % state.queue.capacity.toNat)).seq.toNat

/-- The element in the slot of a position. -/
def dataOf (state : State τ β type) (position : Nat) : Element β type :=
  (state.queue.slots (position % state.queue.capacity.toNat)).data

/-- A thread is copying an element into the slot of `position`. -/
def IsWriting (state : State τ β type) (position : Nat) : Prop :=
  ∃ thread value word copied, state.threads thread = .pushCopy value word copied ∧
    word.toNat = position

/-- A thread is copying an element out of the slot of `position`. -/
def IsReading (state : State τ β type) (position : Nat) : Prop :=
  ∃ thread dst word copied, state.threads thread = .popCopy dst word copied ∧
    word.toNat = position

/-- The stages of a reserved position, told apart by the sequence number. -/
inductive Stage (state : State τ β type) (position : Nat) : Prop where
  | writing (unclaimed : state.history.claimed.length ≤ position)
      (seq : seqOf state position = position) (writer : IsWriting state position)
  | full (unclaimed : state.history.claimed.length ≤ position)
      (seq : seqOf state position = position + 1)
      (data : (state.history.reserved[position]?).map Prod.snd = some (dataOf state position))
  | reading (claimed : position < state.history.claimed.length)
      (seq : seqOf state position = position + 1) (reader : IsReading state position)
      (data : (state.history.reserved[position]?).map Prod.snd = some (dataOf state position))
  | free (claimed : position < state.history.claimed.length)
      (seq : seqOf state position = position + state.queue.capacity.toNat)
      (left : position ∈ returned state)

/-- What the local variables of a thread say about the queue. -/
def Local (state : State τ β type) (thread : τ) : ThreadState β type → Prop
  | .idle | .pushLoadEnd _ | .popLoadAt _ => True
  | .pushLoadSeq _ word => word.toNat ≤ state.history.reserved.length
  | .pushTest _ word seq =>
      word.toNat ≤ state.history.reserved.length ∧ seq.toNat ≤ seqOf state word.toNat
  | .pushCopy value word copied =>
      word.toNat < state.history.reserved.length ∧
      state.history.claimed.length ≤ word.toNat ∧
      seqOf state word.toNat = word.toNat ∧
      state.history.reserved[word.toNat]? = some (thread, value) ∧
      ∀ byte ∈ copied, dataOf state word.toNat byte = value byte
  | .popLoadSeq _ word => word.toNat ≤ state.history.claimed.length
  | .popTest _ word seq =>
      word.toNat ≤ state.history.claimed.length ∧ seq.toNat ≤ seqOf state word.toNat
  | .popCopy dst word copied =>
      word.toNat < state.history.claimed.length ∧
      state.history.reserved.length ≤ word.toNat + state.queue.capacity.toNat ∧
      seqOf state word.toNat = word.toNat + 1 ∧
      state.history.claimed[word.toNat]? = some (thread, word) ∧
      word.toNat ∉ returned state ∧
      (state.history.reserved[word.toNat]?).map Prod.snd = some (dataOf state word.toNat) ∧
      ∀ byte ∈ copied, dst byte = dataOf state word.toNat byte

/-- No counter has wrapped: the sequence numbers of all positions in use fit in
a word. -/
def NoWrap (state : State τ β type) : Prop :=
  state.history.reserved.length + state.queue.capacity.toNat ≤ 2 ^ 64

instance (state : State τ β type) : Decidable (NoWrap state) :=
  inferInstanceAs (Decidable (_ ≤ _))

/-- The invariant of the queue and of all threads that use it. -/
structure Invariant (state : State τ β type) : Prop where
  capacity_pow : ∃ k, state.queue.capacity.toNat = 2 ^ k
  two_le_capacity : 2 ≤ state.queue.capacity.toNat
  end_eq : state.queue.qend.toNat = state.history.reserved.length
  at_eq : state.queue.qat.toNat = state.history.claimed.length
  at_le_end : state.history.claimed.length ≤ state.history.reserved.length
  end_le : state.history.reserved.length ≤
    state.history.claimed.length + state.queue.capacity.toNat
  untouched : ∀ index, state.history.reserved.length ≤ index →
    index < state.queue.capacity.toNat → seqOf state index = index
  stage : ∀ position, position < state.history.reserved.length →
    state.history.reserved.length ≤ position + state.queue.capacity.toNat →
    Stage state position
  retired : ∀ position, position + state.queue.capacity.toNat < state.history.reserved.length →
    position ∈ returned state
  locals : ∀ thread, Local state thread (state.threads thread)
  claims : state.history.claimed.map (fun entry => entry.2.toNat) =
    List.range state.history.claimed.length
  returned_nodup : (returned state).Nodup
  returned_claimed : ∀ record ∈ state.history.popped,
    (record.thread, record.position) ∈ state.history.claimed
  returned_reserved : ∀ record ∈ state.history.popped,
    (state.history.reserved[record.position.toNat]?).map Prod.snd = some record.value

/-! ## Reading the invariant -/

namespace Invariant

variable {state : State τ β type} (invariant : Invariant state)

include invariant

theorem slotIndex_eq (word : Word) :
    state.queue.slotIndex word = word.toNat % state.queue.capacity.toNat :=
  slotIndex_of_pow invariant.capacity_pow word

theorem seq_toNat (word : Word) : (state.queue.slotAt word).seq.toNat = seqOf state word.toNat := by
  rw [slotAt, invariant.slotIndex_eq, seqOf]

theorem data_eq (word : Word) : (state.queue.slotAt word).data = dataOf state word.toNat := by
  rw [slotAt, invariant.slotIndex_eq, dataOf]

/-- Storing into a slot changes the sequence number of the positions that share it. -/
theorem seqOf_setSlot (threads : τ → ThreadState β type) (history : History τ β type) (word : Word)
    (slot : ThreadQueueSlot β type) (position : Nat) :
    seqOf { queue := state.queue.setSlot word slot, threads, history } position =
      if position % state.queue.capacity.toNat = word.toNat % state.queue.capacity.toNat
      then slot.seq.toNat else seqOf state position := by
  simp only [seqOf, setSlot, invariant.slotIndex_eq, Function.update_apply]
  split <;> rfl

/-- Storing into a slot changes the element of the positions that share it. -/
theorem dataOf_setSlot (threads : τ → ThreadState β type) (history : History τ β type) (word : Word)
    (slot : ThreadQueueSlot β type) (position : Nat) :
    dataOf { queue := state.queue.setSlot word slot, threads, history } position =
      if position % state.queue.capacity.toNat = word.toNat % state.queue.capacity.toNat
      then slot.data else dataOf state position := by
  simp only [dataOf, setSlot, invariant.slotIndex_eq, Function.update_apply]
  split <;> rfl

/-- A slot that offers the next position to a push holds a position that has been returned. -/
theorem offered_free (offered : state.history.reserved.length ≤
    seqOf state state.history.reserved.length) :
    seqOf state state.history.reserved.length = state.history.reserved.length ∧
      (state.queue.capacity.toNat ≤ state.history.reserved.length →
        state.history.reserved.length - state.queue.capacity.toNat ∈ returned state ∧
        state.history.reserved.length - state.queue.capacity.toNat <
          state.history.claimed.length) := by
  have twoLe := invariant.two_le_capacity
  by_cases first : state.history.reserved.length < state.queue.capacity.toNat
  · refine ⟨invariant.untouched _ le_rfl first, fun later => by omega⟩
  · have aliased : seqOf state state.history.reserved.length =
        seqOf state (state.history.reserved.length - state.queue.capacity.toNat) := by
      rw [seqOf, seqOf, ← Nat.mod_eq_sub_mod (by omega)]
    have current := invariant.stage
      (state.history.reserved.length - state.queue.capacity.toNat) (by omega) (by omega)
    rw [aliased] at offered ⊢
    cases current with
    | writing _ seq _ => omega
    | full _ seq _ => omega
    | reading _ seq _ _ => omega
    | free claimed seq left => exact ⟨by omega, fun _ => ⟨left, claimed⟩⟩

/-- A slot that offers the next position to a pop holds a completely written element. -/
theorem offered_full (offered : state.history.claimed.length + 1 ≤
    seqOf state state.history.claimed.length) :
    state.history.claimed.length < state.history.reserved.length ∧
      seqOf state state.history.claimed.length = state.history.claimed.length + 1 ∧
      (state.history.reserved[state.history.claimed.length]?).map Prod.snd =
        some (dataOf state state.history.claimed.length) := by
  have twoLe := invariant.two_le_capacity
  have ordered := invariant.at_le_end
  have bounded := invariant.end_le
  by_cases waiting : state.history.claimed.length < state.history.reserved.length
  · have current := invariant.stage state.history.claimed.length waiting bounded
    cases current with
    | writing _ seq _ => omega
    | full _ seq data => exact ⟨waiting, seq, data⟩
    | reading claimed _ _ _ => omega
    | free claimed _ _ => omega
  · by_cases first : state.history.claimed.length < state.queue.capacity.toNat
    · have seq := invariant.untouched state.history.claimed.length (by omega) first
      omega
    · have aliased : seqOf state state.history.claimed.length =
          seqOf state (state.history.claimed.length - state.queue.capacity.toNat) := by
        rw [seqOf, seqOf, ← Nat.mod_eq_sub_mod (by omega)]
      have current := invariant.stage
        (state.history.claimed.length - state.queue.capacity.toNat) (by omega) (by omega)
      rw [aliased] at offered
      cases current with
      | writing _ seq _ => omega
      | full _ seq _ => omega
      | reading _ seq _ _ => omega
      | free _ seq _ => omega

end Invariant

end TellyDB.Utils.ThreadQueue
