import TellyDB.Utils.ThreadQueue.Steps

/-!
Owns the safety of the bounded queue over every interleaving of any number of
threads, up to the wrap of its 64-bit counters.
-/

namespace TellyDB.Utils.ThreadQueue

open Lib.Transition

variable {τ β : Type} {type : Nat}

/-- The values that left the queue, in the order in which pops claimed them,
with the thread that pushed each. -/
def leaving (state : State τ β type) : List (τ × Element β type) :=
  state.history.claimed.filterMap fun entry => state.history.reserved[entry.2.toNat]?

/-- What the queue promises between any two steps. -/
structure Safe [DecidableEq τ] (state : State τ β type) : Prop where
  /-- `at <= end <= at + capacity`. -/
  counters : state.queue.qat.toNat ≤ state.queue.qend.toNat ∧
    state.queue.qend.toNat ≤ state.queue.qat.toNat + state.queue.capacity.toNat
  /-- A pop returns, completely, the value whose push reserved its position. -/
  pushed : ∀ record ∈ state.history.popped, ∃ producer,
    state.history.reserved[record.position.toNat]? = some (producer, record.value)
  /-- No two pops return one position. -/
  once : (state.history.popped.map fun record => record.position.toNat).Nodup
  /-- The positions are claimed one after the other, each by the pop that returns it. -/
  claimedInOrder : state.history.claimed.map (fun entry => entry.2.toNat) =
    List.range state.queue.qat.toNat
  returnedClaimed : ∀ record ∈ state.history.popped,
    (record.thread, record.position) ∈ state.history.claimed
  /-- Values leave in the order in which their pushes reserved positions. -/
  inOrder : leaving state <+: state.history.reserved
  inOrderPerProducer : ∀ producer,
    (leaving state).filter (fun entry => entry.1 = producer) <+:
      state.history.reserved.filter fun entry => entry.1 = producer
  /-- A producer writes a slot whose previous value has been copied out. -/
  previousReturned : ∀ thread value position copied,
    state.threads thread = .pushCopy value position copied →
      state.queue.capacity.toNat ≤ position.toNat →
        ∃ record ∈ state.history.popped,
          record.position.toNat = position.toNat - state.queue.capacity.toNat
  /-- A consumer reads a slot whose value is completely written. -/
  completelyWritten : ∀ thread dst position copied,
    state.threads thread = .popCopy dst position copied → ∃ producer,
      state.history.reserved[position.toNat]? =
        some (producer, (state.queue.slotAt position).data)
  /-- No two threads copy into or out of one slot. -/
  exclusive : ∀ left right leftPosition rightPosition,
    (state.threads left).copyPosition = some leftPosition →
      (state.threads right).copyPosition = some rightPosition → left ≠ right →
        state.queue.slotIndex leftPosition ≠ state.queue.slotIndex rightPosition

theorem exists_of_map_snd {α γ : Type} {found : Option (α × γ)} {value : γ}
    (held : found.map Prod.snd = some value) : ∃ first, found = some (first, value) := by
  obtain ⟨⟨first, second⟩, found_eq, second_eq⟩ := Option.map_eq_some_iff.mp held
  exact ⟨first, by rw [found_eq, ← second_eq]⟩

section Consequences

variable {state : State τ β type} (invariant : Invariant state)

include invariant

theorem Invariant.leaving_eq :
    leaving state = state.history.reserved.take state.history.claimed.length := by
  have ordered := invariant.at_le_end
  have claims := invariant.claims
  have mapped : leaving state = (state.history.claimed.map fun entry => entry.2.toNat).filterMap
      fun position => state.history.reserved[position]? := by
    rw [leaving, List.filterMap_map]
    rfl
  rw [mapped, claims]
  clear mapped claims
  revert ordered
  induction state.history.claimed.length with
  | zero => simp
  | succ count inductionHypothesis =>
      intro ordered
      rw [List.range_succ, List.filterMap_append, inductionHypothesis (by omega),
        List.take_succ_eq_append_getElem (by omega)]
      simp [List.getElem?_eq_getElem (show count < state.history.reserved.length by omega)]

/-- `estimate_tqueue_size` counts the positions reserved and not yet claimed. -/
theorem Invariant.estimateTqueueSize_eq : (estimateTqueueSize state.queue).toNat =
    state.history.reserved.length - state.history.claimed.length := by
  have ordered := invariant.at_le_end
  have end_eq := invariant.end_eq
  have at_eq := invariant.at_eq
  rw [estimateTqueueSize]
  bv_omega

theorem Invariant.previousReturned {thread : τ} {value : Element β type} {position : Word}
    {copied : Finset (Fin type)} (copying : state.threads thread = .pushCopy value position copied)
    (later : state.queue.capacity.toNat ≤ position.toNat) :
    position.toNat - state.queue.capacity.toNat ∈ returned state := by
  have held := invariant.locals thread
  rw [copying] at held
  obtain ⟨reserved, unclaimed, seq, -⟩ := held
  have twoLe := invariant.two_le_capacity
  by_cases retired : position.toNat < state.history.reserved.length
  · exact invariant.retired _ (by omega)
  · omega

theorem Invariant.safe [DecidableEq τ] : Safe state where
  counters := by
    rw [invariant.at_eq, invariant.end_eq]
    exact ⟨invariant.at_le_end, invariant.end_le⟩
  pushed := fun record member => exists_of_map_snd (invariant.returned_reserved record member)
  once := invariant.returned_nodup
  claimedInOrder := by rw [invariant.at_eq, invariant.claims]
  returnedClaimed := invariant.returned_claimed
  inOrder := by
    rw [invariant.leaving_eq]
    exact List.take_prefix ..
  inOrderPerProducer := by
    intro producer
    rw [invariant.leaving_eq]
    exact (List.take_prefix ..).filter _
  previousReturned := by
    intro thread value position copied copying later
    exact List.mem_map.mp (invariant.previousReturned copying later)
  completelyWritten := by
    intro thread dst position copied copying
    have held := invariant.locals thread
    rw [copying] at held
    obtain ⟨-, -, -, -, -, data, -⟩ := held
    rw [invariant.data_eq]
    exact exists_of_map_snd data
  exclusive := by
    intro left right leftPosition rightPosition leftCopies rightCopies different
    rw [invariant.slotIndex_eq, invariant.slotIndex_eq]
    exact invariant.exclusive different leftCopies rightCopies

end Consequences

/-- A queue just created satisfies the invariant. -/
theorem initial_invariant {capacity align : Word} {memory : Nat → ThreadQueueSlot β type}
    {queue : ThreadQueue β type} (created : createTqueue capacity align memory = some queue)
    (twoLe : 2 ≤ capacity.toNat) : Invariant (State.initial queue : State τ β type) := by
  obtain ⟨nonzero, checked, queue_eq⟩ := createTqueue_eq_some created
  subst queue_eq
  refine {
    capacity_pow := capacity_isPowerOfTwo nonzero checked
    two_le_capacity := twoLe
    end_eq := rfl
    at_eq := rfl
    at_le_end := le_rfl
    end_le := Nat.zero_le _
    untouched := ?_
    stage := ?_
    retired := ?_
    locals := fun _ => trivial
    claims := rfl
    returned_nodup := List.nodup_nil
    returned_claimed := by simp [State.initial]
    returned_reserved := by simp [State.initial] }
  · intro index _ bound
    simp only [State.initial] at bound
    simp only [State.initial, seqOf, Nat.mod_eq_of_lt bound]
    rw [foldl_initState_seq _ _ _ ((mem_initOrder _ _).mpr bound), BitVec.toNat_ofNat,
      Nat.mod_eq_of_lt (by omega)]
  · intro position reserved
    cases reserved
  · intro position reserved
    cases reserved

/-! ## A queue used by one thread -/

theorem seq_setSlot (queue : ThreadQueue β type) (position : Word)
    (slot : ThreadQueueSlot β type) (index : Nat) :
    ((queue.setSlot position slot).slots index).seq =
      if index = queue.slotIndex position then slot.seq else (queue.slots index).seq := by
  simp only [setSlot, Function.update_apply]
  split <;> rfl

/-- The queue of capacity two after `rounds` values have gone through it one by one. -/
structure Quiet (state : State τ β 1) (thread : τ) (rounds : Nat) : Prop where
  idle : state.threads thread = .idle
  capacity_eq : state.queue.capacity = 2
  qat_eq : state.queue.qat = BitVec.ofNat 64 rounds
  qend_eq : state.queue.qend = BitVec.ofNat 64 rounds
  seq_next : (state.queue.slots (rounds % 2)).seq = BitVec.ofNat 64 rounds
  seq_other : (state.queue.slots ((rounds + 1) % 2)).seq = BitVec.ofNat 64 (rounds + 1)

theorem Quiet.slotIndex_eq {state : State τ β 1} {thread : τ} {rounds : Nat}
    (quiet : Quiet state thread rounds) :
    state.queue.slotIndex (BitVec.ofNat 64 rounds) = rounds % 2 := by
  have mask : ((2 : Word) - 1).toNat = 2 ^ 1 - 1 := rfl
  rw [slotIndex, quiet.capacity_eq, BitVec.toNat_and, mask, Nat.and_two_pow_sub_one_eq_mod,
    BitVec.toNat_ofNat]
  omega

variable [DecidableEq τ]

/-- A whole `push_tqueue` of a one-byte element, undisturbed. -/
def pushAlone (thread : τ) (value : Element β 1) : List (Action τ β 1) :=
  [.callPush thread value, .advance thread true, .advance thread true, .advance thread true,
    .copyByte thread 0, .advance thread true]

/-- A whole `pop_tqueue` of a one-byte element, undisturbed. -/
def popAlone (thread : τ) (dst : Element β 1) : List (Action τ β 1) :=
  [.callPop thread dst, .advance thread true, .advance thread true, .advance thread true,
    .copyByte thread 0, .advance thread true]

/-- A push alone on a free slot succeeds. -/
theorem run_pushAlone {state : State τ β 1} {thread : τ} (value : Element β 1)
    (idle : state.threads thread = .idle)
    (offered : (state.queue.slotAt state.queue.qend).seq = state.queue.qend) :
    ∃ next, run step state (pushAlone thread value) = some next ∧
      next.threads thread = .idle ∧
      next.queue.capacity = state.queue.capacity ∧ next.queue.qat = state.queue.qat ∧
      next.queue.qend = state.queue.qend + 1 ∧
      ∀ index, (next.queue.slots index).seq =
        if index = state.queue.slotIndex state.queue.qend then state.queue.qend + 1
        else (state.queue.slots index).seq := by
  let reserved := reserve state thread value state.queue.qend
  let written := writeByte reserved thread value state.queue.qend ∅ 0
  have called : step state (.callPush thread value) =
      some (state.setThread thread (.pushLoadEnd value)) := by
    simp [step, idle]
  have loaded : step (state.setThread thread (.pushLoadEnd value)) (.advance thread true) =
      some (state.setThread thread (.pushLoadSeq value state.queue.qend)) := by
    simp [step, advance]
  have tested : step (state.setThread thread (.pushLoadSeq value state.queue.qend))
      (.advance thread true) = some (state.setThread thread
        (.pushTest value state.queue.qend state.queue.qend)) := by
    simp [step, advance, offered]
  have swapped : step (state.setThread thread
      (.pushTest value state.queue.qend state.queue.qend)) (.advance thread true) =
      some reserved := by
    simp [step, advance, reserve, reserved, State.setThread]
  have copied : step reserved (.copyByte thread 0) = some written := by
    simp [step, reserve, reserved, written, State.setThread]
  have stored : step written (.advance thread true) =
      some (publish written thread state.queue.qend) := by
    have complete : insert (0 : Fin 1) (∅ : Finset (Fin 1)) = Finset.univ := rfl
    have at_copy : written.threads thread = .pushCopy value state.queue.qend (insert 0 ∅) :=
      State.setThread_self ..
    rw [step, advance, at_copy]
    simp [complete]
  refine ⟨publish written thread state.queue.qend, ?_, State.setThread_self .., rfl, rfl, rfl, ?_⟩
  · simp only [pushAlone, run_cons, called, loaded, tested, swapped, copied, stored,
      Option.bind_some, run_nil]
  · intro index
    have storedSeq : ((publish written thread state.queue.qend).queue.slots index).seq =
        if index = state.queue.slotIndex state.queue.qend then state.queue.qend + 1
        else (written.queue.slots index).seq := seq_setSlot written.queue _ _ index
    have copiedSeq : (written.queue.slots index).seq =
        if index = state.queue.slotIndex state.queue.qend then
          (state.queue.slotAt state.queue.qend).seq
        else (state.queue.slots index).seq := seq_setSlot reserved.queue _ _ index
    rw [storedSeq, copiedSeq]
    by_cases same : index = state.queue.slotIndex state.queue.qend
    · rw [if_pos same, if_pos same]
    · rw [if_neg same, if_neg same, if_neg same]

/-- A pop alone on a full slot succeeds. -/
theorem run_popAlone {state : State τ β 1} {thread : τ} (dst : Element β 1)
    (idle : state.threads thread = .idle)
    (offered : (state.queue.slotAt state.queue.qat).seq = state.queue.qat + 1) :
    ∃ next, run step state (popAlone thread dst) = some next ∧
      next.threads thread = .idle ∧
      next.queue.capacity = state.queue.capacity ∧ next.queue.qend = state.queue.qend ∧
      next.queue.qat = state.queue.qat + 1 ∧
      ∀ index, (next.queue.slots index).seq =
        if index = state.queue.slotIndex state.queue.qat then
          state.queue.qat + state.queue.capacity
        else (state.queue.slots index).seq := by
  let claimed := claim state thread dst state.queue.qat
  let read := readByte claimed thread dst state.queue.qat ∅ 0
  let returned := Function.update dst 0 ((claimed.queue.slotAt state.queue.qat).data 0)
  have called : step state (.callPop thread dst) =
      some (state.setThread thread (.popLoadAt dst)) := by
    simp [step, idle]
  have loaded : step (state.setThread thread (.popLoadAt dst)) (.advance thread true) =
      some (state.setThread thread (.popLoadSeq dst state.queue.qat)) := by
    simp [step, advance]
  have tested : step (state.setThread thread (.popLoadSeq dst state.queue.qat))
      (.advance thread true) = some (state.setThread thread
        (.popTest dst state.queue.qat (state.queue.qat + 1))) := by
    simp [step, advance, offered]
  have swapped : step (state.setThread thread
      (.popTest dst state.queue.qat (state.queue.qat + 1))) (.advance thread true) =
      some claimed := by
    simp [step, advance, claim, claimed, State.setThread]
  have copied : step claimed (.copyByte thread 0) = some read := by
    simp [step, claim, claimed, read, State.setThread]
  have stored : step read (.advance thread true) =
      some (release read thread returned state.queue.qat) := by
    have complete : insert (0 : Fin 1) (∅ : Finset (Fin 1)) = Finset.univ := rfl
    have at_copy : read.threads thread = .popCopy returned state.queue.qat (insert 0 ∅) :=
      State.setThread_self ..
    rw [step, advance, at_copy]
    simp [complete]
  refine ⟨release read thread returned state.queue.qat, ?_, State.setThread_self .., rfl, rfl,
    rfl, ?_⟩
  · simp only [popAlone, run_cons, called, loaded, tested, swapped, copied, stored,
      Option.bind_some, run_nil]
  · intro index
    exact seq_setSlot read.queue _ _ index

/-- One value goes through the queue. -/
theorem Quiet.round {state : State τ β 1} {thread : τ} {rounds : Nat}
    (quiet : Quiet state thread rounds) (value : Element β 1) :
    ∃ next, run step state (pushAlone thread value ++ popAlone thread value) = some next ∧
      Quiet next thread (rounds + 1) := by
  have own := quiet.slotIndex_eq
  obtain ⟨pushed, ranPush, pushedIdle, pushedCapacity, pushedAt, pushedEnd, pushedSeq⟩ :=
    run_pushAlone value quiet.idle (by
      rw [slotAt, quiet.qend_eq, own, quiet.seq_next])
  rw [quiet.qend_eq, own] at pushedSeq
  rw [quiet.qat_eq] at pushedAt
  have pushedIndex : pushed.queue.slotIndex (BitVec.ofNat 64 rounds) = rounds % 2 := by
    rw [slotIndex, pushedCapacity]
    exact own
  obtain ⟨popped, ranPop, poppedIdle, poppedCapacity, poppedEnd, poppedAt, poppedSeq⟩ :=
    run_popAlone value pushedIdle (by
      rw [slotAt, pushedAt, pushedIndex, pushedSeq, if_pos rfl])
  rw [pushedAt, pushedIndex, pushedCapacity, quiet.capacity_eq] at poppedSeq
  have other : (rounds + 1) % 2 ≠ rounds % 2 := by omega
  refine ⟨popped, by rw [run_append, ranPush]; exact ranPop, ?_⟩
  constructor
  · exact poppedIdle
  · rw [poppedCapacity, pushedCapacity, quiet.capacity_eq]
  · rw [poppedAt, pushedAt]
    bv_omega
  · rw [poppedEnd, pushedEnd, quiet.qend_eq]
    bv_omega
  · rw [poppedSeq, if_neg other, pushedSeq, if_neg other, quiet.seq_other]
  · have same : (rounds + 1 + 1) % 2 = rounds % 2 := by omega
    rw [same, poppedSeq, if_pos rfl]
    bv_omega

theorem Quiet.rounds {state : State τ β 1} {thread : τ} (quiet : Quiet state thread 0)
    (value : Element β 1) (count : Nat) :
    ∃ actions next, run step state actions = some next ∧ Quiet next thread count := by
  induction count with
  | zero => exact ⟨[], state, rfl, quiet⟩
  | succ count inductionHypothesis =>
      obtain ⟨actions, middle, ran, quiet⟩ := inductionHypothesis
      obtain ⟨next, ranRound, quietNext⟩ := quiet.round value
      refine ⟨actions ++ (pushAlone thread value ++ popAlone thread value), next, ?_, quietNext⟩
      rw [run_append, ran]
      exact ranRound

/-! ## Every interleaving -/

theorem run_invariant_of_noWrap {state final : State τ β type} {actions : List (Action τ β type)}
    (invariant : Invariant state) (ran : run step state actions = some final)
    (noWrap : NoWrap final) : Invariant final := by
  have preserved : ∀ state (action : Action τ β type) next, (NoWrap state → Invariant state) →
      step state action = some next → (NoWrap next → Invariant next) := by
    intro state action next held stepped noWrap
    have effect := step_effect stepped
    exact effect.invariant noWrap (held (effect.noWrap noWrap))
  exact run_invariant preserved (fun _ => invariant) ran noWrap

/-- Every state reached by any interleaving is safe as long as no counter has wrapped. -/
theorem threadQueue_safe {capacity align : Word} {memory : Nat → ThreadQueueSlot β type}
    {queue : ThreadQueue β type} (created : createTqueue capacity align memory = some queue)
    (twoLe : 2 ≤ capacity.toNat) {actions : List (Action τ β type)} {state : State τ β type}
    (ran : run step (State.initial queue) actions = some state) (noWrap : NoWrap state) :
    Safe state :=
  (run_invariant_of_noWrap (initial_invariant created twoLe) ran noWrap).safe

/-- Two threads, one value from the first to the second. -/
theorem threadQueue_safe_handover : ∃ (queue : ThreadQueue (BitVec 8) 1)
    (state : State Bool (BitVec 8) 1), createTqueue 2 8 (fun _ => ⟨0, fun _ => 0⟩) = some queue ∧
      run step (State.initial queue) (pushAlone false (fun _ => 7) ++ popAlone true fun _ => 0) =
        some state ∧
      NoWrap state ∧ returned state = [0] ∧ Safe state := by
  obtain ⟨queue, created⟩ : ∃ queue, createTqueue 2 8
      (fun _ => (⟨0, fun _ => 0⟩ : ThreadQueueSlot (BitVec 8) 1)) = some queue := ⟨_, rfl⟩
  obtain ⟨state, ran, noWrap, returned_eq⟩ : ∃ state, run step (State.initial queue)
      (pushAlone false (fun _ => 7) ++ popAlone true fun _ => 0) = some state ∧
        NoWrap state ∧ returned state = [0] := by
    cases created
    exact ⟨_, rfl, by decide, by decide⟩
  exact ⟨queue, state, created, ran, noWrap, returned_eq,
    threadQueue_safe created (by cases created; decide) ran noWrap⟩

/-- After the last position of a word, one more push wraps `end` to zero while
`at` is still the largest word. -/
theorem threadQueue_safe_fails_at_wrap :
    ¬ ∀ (queue : ThreadQueue (BitVec 8) 1), createTqueue 2 8 (fun _ => ⟨0, fun _ => 0⟩) =
      some queue → ∀ (actions : List (Action Unit (BitVec 8) 1)) (state : State Unit (BitVec 8) 1),
        run step (State.initial queue) actions = some state → Safe state := by
  intro safe
  obtain ⟨queue, created⟩ : ∃ queue, createTqueue 2 8
      (fun _ => (⟨0, fun _ => 0⟩ : ThreadQueueSlot (BitVec 8) 1)) = some queue := ⟨_, rfl⟩
  have start : Quiet (State.initial queue : State Unit (BitVec 8) 1) () 0 := by
    cases created
    exact ⟨rfl, rfl, rfl, rfl, rfl, rfl⟩
  obtain ⟨actions, last, ran, quiet⟩ := start.rounds (fun _ => 0) (2 ^ 64 - 1)
  obtain ⟨wrapped, ranPush, -, -, wrappedAt, wrappedEnd, -⟩ :=
    run_pushAlone (fun _ => 0) quiet.idle (by
      rw [slotAt, quiet.qend_eq, quiet.slotIndex_eq, quiet.seq_next])
  have reached : run step (State.initial queue) (actions ++ pushAlone () fun _ => 0) =
      some wrapped := by
    rw [run_append, ran]
    exact ranPush
  have ordered := (safe queue created _ wrapped reached).counters.1
  rw [wrappedAt, wrappedEnd, quiet.qat_eq, quiet.qend_eq] at ordered
  exact absurd ordered (by decide)

end TellyDB.Utils.ThreadQueue
