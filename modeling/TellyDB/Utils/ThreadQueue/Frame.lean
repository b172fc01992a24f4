import TellyDB.Utils.ThreadQueue.Invariant

/-!
Owns what the steps of one thread leave alone: the local variables of the other
threads, the slots nobody is copying, and, when a copying thread stores into its
own slot, everything but that position.
-/

namespace TellyDB.Utils.ThreadQueue

variable {τ β : Type} {type : Nat}

/-! ## What later states keep -/

/-- Positions already reserved or claimed stay so, and no sequence number falls. -/
structure Later (state next : State τ β type) : Prop where
  capacity_eq : next.queue.capacity = state.queue.capacity
  reserved_prefix : state.history.reserved <+: next.history.reserved
  claimed_prefix : state.history.claimed <+: next.history.claimed
  seq_le : ∀ position, seqOf state position ≤ seqOf next position

theorem Later.reserved_at {state next : State τ β type} (later : Later state next)
    {position : Nat} (bound : position < state.history.reserved.length) :
    next.history.reserved[position]? = state.history.reserved[position]? := by
  obtain ⟨more, reserved_eq⟩ := later.reserved_prefix
  rw [← reserved_eq, List.getElem?_append_left bound]

theorem Later.claimed_at {state next : State τ β type} (later : Later state next)
    {position : Nat} (bound : position < state.history.claimed.length) :
    next.history.claimed[position]? = state.history.claimed[position]? := by
  obtain ⟨more, claimed_eq⟩ := later.claimed_prefix
  rw [← claimed_eq, List.getElem?_append_left bound]

/-- A thread that copies nothing is not disturbed by the steps of others. -/
theorem Local.later {state next : State τ β type} (later : Later state next) {thread : τ}
    {threadState : ThreadState β type} (held : Local state thread threadState)
    (pushing : ∀ value word copied, threadState = .pushCopy value word copied →
      Local next thread threadState)
    (popping : ∀ dst word copied, threadState = .popCopy dst word copied →
      Local next thread threadState) :
    Local next thread threadState := by
  have reserved := later.reserved_prefix.length_le
  have claimed := later.claimed_prefix.length_le
  cases threadState with
  | idle => trivial
  | pushLoadEnd => trivial
  | pushLoadSeq => exact le_trans held reserved
  | pushTest => exact ⟨le_trans held.1 reserved, le_trans held.2 (later.seq_le _)⟩
  | pushCopy value word copied => exact pushing value word copied rfl
  | popLoadAt => trivial
  | popLoadSeq => exact le_trans held claimed
  | popTest => exact ⟨le_trans held.1 claimed, le_trans held.2 (later.seq_le _)⟩
  | popCopy dst word copied => exact popping dst word copied rfl

/-! ## Threads that copy -/

/-- The position whose slot a thread is copying into or out of. -/
def ThreadState.copyPosition : ThreadState β type → Option Word
  | .pushCopy _ position _ | .popCopy _ position _ => some position
  | _ => none

theorem isWriting_frame {state next : State τ β type} {thread : τ} {position : Nat}
    (unmoved : ∀ other, other ≠ thread → next.threads other = state.threads other)
    (moved : ∀ value word copied, state.threads thread = .pushCopy value word copied →
      word.toNat = position → IsWriting next position)
    (writer : IsWriting state position) : IsWriting next position := by
  obtain ⟨writing, value, word, copied, at_copy, word_eq⟩ := writer
  by_cases same : writing = thread
  · rw [same] at at_copy
    exact moved value word copied at_copy word_eq
  · exact ⟨writing, value, word, copied, by rw [unmoved writing same, at_copy], word_eq⟩

theorem isReading_frame {state next : State τ β type} {thread : τ} {position : Nat}
    (unmoved : ∀ other, other ≠ thread → next.threads other = state.threads other)
    (moved : ∀ dst word copied, state.threads thread = .popCopy dst word copied →
      word.toNat = position → IsReading next position)
    (reader : IsReading state position) : IsReading next position := by
  obtain ⟨reading, dst, word, copied, at_copy, word_eq⟩ := reader
  by_cases same : reading = thread
  · rw [same] at at_copy
    exact moved dst word copied at_copy word_eq
  · exact ⟨reading, dst, word, copied, by rw [unmoved reading same, at_copy], word_eq⟩

/-! ## Stores of a copying thread -/

/-- Two threads never copy into or out of one slot at the same time. -/
theorem Invariant.exclusive {state : State τ β type} (invariant : Invariant state)
    {left right : τ} (different : left ≠ right) {leftWord rightWord : Word}
    (leftCopies : (state.threads left).copyPosition = some leftWord)
    (rightCopies : (state.threads right).copyPosition = some rightWord) :
    leftWord.toNat % state.queue.capacity.toNat ≠
      rightWord.toNat % state.queue.capacity.toNat := by
  intro same_slot
  have ordered := invariant.at_le_end
  have bounded := invariant.end_le
  have leftHeld := invariant.locals left
  have rightHeld := invariant.locals right
  revert leftHeld rightHeld
  cases at_left : state.threads left with
  | idle | pushLoadEnd | pushLoadSeq | pushTest | popLoadAt | popLoadSeq | popTest =>
      rw [at_left] at leftCopies
      cases leftCopies
  | pushCopy leftValue word copied =>
      rw [at_left] at leftCopies
      cases leftCopies
      cases at_right : state.threads right with
      | idle | pushLoadEnd | pushLoadSeq | pushTest | popLoadAt | popLoadSeq | popTest =>
          rw [at_right] at rightCopies
          cases rightCopies
      | pushCopy rightValue word copied =>
          rw [at_right] at rightCopies
          cases rightCopies
          rintro ⟨leftReserved, leftUnclaimed, -, left_at, -⟩
            ⟨rightReserved, rightUnclaimed, -, right_at, -⟩
          have same := Lib.Circular.eq_of_mod_eq (by omega) (by omega) same_slot
          rw [same, right_at] at left_at
          exact different (congrArg Prod.fst (Option.some.inj left_at)).symm
      | popCopy rightDst word copied =>
          rw [at_right] at rightCopies
          cases rightCopies
          rintro ⟨leftReserved, leftUnclaimed, -⟩ ⟨rightClaimed, rightRecent, -⟩
          have same := Lib.Circular.eq_of_mod_eq (by omega) (by omega) same_slot
          omega
  | popCopy leftDst word copied =>
      rw [at_left] at leftCopies
      cases leftCopies
      cases at_right : state.threads right with
      | idle | pushLoadEnd | pushLoadSeq | pushTest | popLoadAt | popLoadSeq | popTest =>
          rw [at_right] at rightCopies
          cases rightCopies
      | pushCopy rightValue word copied =>
          rw [at_right] at rightCopies
          cases rightCopies
          rintro ⟨leftClaimed, leftRecent, -⟩ ⟨rightReserved, rightUnclaimed, -⟩
          have same := Lib.Circular.eq_of_mod_eq (by omega) (by omega) same_slot
          omega
      | popCopy rightDst word copied =>
          rw [at_right] at rightCopies
          cases rightCopies
          rintro ⟨leftClaimed, leftRecent, -, left_at, -⟩ ⟨rightClaimed, rightRecent, -, right_at, -⟩
          have same := Lib.Circular.eq_of_mod_eq (by omega) (by omega) same_slot
          rw [same, right_at] at left_at
          exact different (congrArg Prod.fst (Option.some.inj left_at)).symm

/-- The position a thread copies is in use. -/
theorem Invariant.copyPosition_current {state : State τ β type} (invariant : Invariant state)
    {thread : τ} {word : Word} (copies : (state.threads thread).copyPosition = some word) :
    word.toNat < state.history.reserved.length ∧
      state.history.reserved.length ≤ word.toNat + state.queue.capacity.toNat := by
  have ordered := invariant.at_le_end
  have bounded := invariant.end_le
  have held := invariant.locals thread
  cases at_thread : state.threads thread with
  | idle | pushLoadEnd | pushLoadSeq | pushTest | popLoadAt | popLoadSeq | popTest =>
      rw [at_thread] at copies
      cases copies
  | pushCopy =>
      rw [at_thread] at copies held
      cases copies
      obtain ⟨reserved, unclaimed, -⟩ := held
      exact ⟨reserved, by omega⟩
  | popCopy =>
      rw [at_thread] at copies held
      cases copies
      obtain ⟨claimed, recent, -⟩ := held
      exact ⟨by omega, recent⟩

/-- A copying thread stores into its own slot: no other position and no other
thread notices. What remains is the stage of the position and the thread itself. -/
theorem Invariant.store {state next : State τ β type} (invariant : Invariant state) {thread : τ}
    {word : Word} {slot : ThreadQueueSlot β type}
    (copies : (state.threads thread).copyPosition = some word)
    (queue_eq : next.queue = state.queue.setSlot word slot)
    (reserved_eq : next.history.reserved = state.history.reserved)
    (claimed_eq : next.history.claimed = state.history.claimed)
    (unmoved : ∀ other, other ≠ thread → next.threads other = state.threads other)
    (seq_le : seqOf state word.toNat ≤ slot.seq.toNat)
    (returned_le : ∀ position ∈ returned state, position ∈ returned next)
    (returned_new : ∀ position ∈ returned next, position ∈ returned state ∨ position = word.toNat)
    (stage : Stage next word.toNat) (held : Local next thread (next.threads thread))
    (returned_nodup : (returned next).Nodup)
    (returned_claimed : ∀ record ∈ next.history.popped,
      (record.thread, record.position) ∈ next.history.claimed)
    (returned_reserved : ∀ record ∈ next.history.popped,
      (next.history.reserved[record.position.toNat]?).map Prod.snd = some record.value) :
    Invariant next := by
  obtain ⟨reserved, recent⟩ := invariant.copyPosition_current copies
  have capacity_eq : next.queue.capacity = state.queue.capacity := by rw [queue_eq]; rfl
  have seq_next : ∀ position, seqOf next position =
      if position % state.queue.capacity.toNat = word.toNat % state.queue.capacity.toNat
      then slot.seq.toNat else seqOf state position := by
    intro position
    rw [← invariant.seqOf_setSlot next.threads next.history, ← queue_eq]
  have data_next : ∀ position, dataOf next position =
      if position % state.queue.capacity.toNat = word.toNat % state.queue.capacity.toNat
      then slot.data else dataOf state position := by
    intro position
    rw [← invariant.dataOf_setSlot next.threads next.history, ← queue_eq]
  have later : Later state next := by
    refine ⟨capacity_eq, by rw [reserved_eq], by rw [claimed_eq], fun position => ?_⟩
    rw [seq_next]
    split
    · next same => rwa [seqOf, same]
    · exact le_rfl
  refine {
    capacity_pow := by rw [capacity_eq]; exact invariant.capacity_pow
    two_le_capacity := by rw [capacity_eq]; exact invariant.two_le_capacity
    end_eq := by rw [queue_eq, reserved_eq]; exact invariant.end_eq
    at_eq := by rw [queue_eq, claimed_eq]; exact invariant.at_eq
    at_le_end := by rw [reserved_eq, claimed_eq]; exact invariant.at_le_end
    end_le := by rw [reserved_eq, claimed_eq, capacity_eq]; exact invariant.end_le
    untouched := ?_
    stage := ?_
    retired := ?_
    locals := ?_
    claims := by rw [claimed_eq]; exact invariant.claims
    returned_nodup := returned_nodup
    returned_claimed := returned_claimed
    returned_reserved := returned_reserved }
  · intro index fresh bound
    rw [reserved_eq] at fresh
    rw [capacity_eq] at bound
    have other_slot : index % state.queue.capacity.toNat ≠
        word.toNat % state.queue.capacity.toNat := by
      rw [Nat.mod_eq_of_lt bound, Nat.mod_eq_of_lt (by omega)]
      omega
    rw [seq_next, if_neg other_slot]
    exact invariant.untouched index fresh bound
  · intro position positionReserved positionRecent
    rw [reserved_eq] at positionReserved
    rw [reserved_eq, capacity_eq] at positionRecent
    by_cases same : position = word.toNat
    · rw [same]
      exact stage
    · have other_slot : position % state.queue.capacity.toNat ≠
          word.toNat % state.queue.capacity.toNat :=
        fun same_slot => same (Lib.Circular.eq_of_mod_eq (by omega) (by omega) same_slot)
      have seq_eq := seq_next position
      have data_eq := data_next position
      rw [if_neg other_slot] at seq_eq data_eq
      have copying : ∀ moved, (state.threads thread).copyPosition = some moved →
          moved.toNat ≠ position := by
        intro moved moves
        rw [copies] at moves
        cases moves
        exact fun other => same other.symm
      cases invariant.stage position positionReserved positionRecent with
      | writing unclaimed seq writer =>
          refine .writing (by rwa [claimed_eq]) (by rw [seq_eq, seq]) ?_
          refine isWriting_frame unmoved (fun value moved copied at_copy moved_eq => ?_) writer
          exact absurd moved_eq (copying moved (by rw [at_copy]; rfl))
      | full unclaimed seq data =>
          exact .full (by rwa [claimed_eq]) (by rw [seq_eq, seq]) (by rw [reserved_eq, data_eq, data])
      | reading claimed seq reader data =>
          refine .reading (by rwa [claimed_eq]) (by rw [seq_eq, seq]) ?_
            (by rw [reserved_eq, data_eq, data])
          refine isReading_frame unmoved (fun dst moved copied at_copy moved_eq => ?_) reader
          exact absurd moved_eq (copying moved (by rw [at_copy]; rfl))
      | free claimed seq left =>
          exact .free (by rwa [claimed_eq]) (by rw [seq_eq, seq, capacity_eq])
            (returned_le position left)
  · intro position gone
    rw [reserved_eq, capacity_eq] at gone
    exact returned_le position (invariant.retired position gone)
  · intro other
    by_cases same : other = thread
    · rw [same]
      exact held
    · have otherHeld := invariant.locals other
      have other_slot : ∀ otherWord, (state.threads other).copyPosition = some otherWord →
          otherWord.toNat % state.queue.capacity.toNat ≠
            word.toNat % state.queue.capacity.toNat :=
        fun otherWord otherCopies => invariant.exclusive same otherCopies copies
      rw [unmoved other same]
      refine otherHeld.later later ?_ ?_
      · intro value otherWord copied at_copy
        rw [at_copy] at otherHeld other_slot ⊢
        have seq_eq := seq_next otherWord.toNat
        have data_eq := data_next otherWord.toNat
        rw [if_neg (other_slot otherWord rfl)] at seq_eq data_eq
        simp only [Local, reserved_eq, claimed_eq, seq_eq, data_eq]
        exact otherHeld
      · intro dst otherWord copied at_copy
        rw [at_copy] at otherHeld other_slot ⊢
        have seq_eq := seq_next otherWord.toNat
        have data_eq := data_next otherWord.toNat
        have apart := other_slot otherWord rfl
        rw [if_neg apart] at seq_eq data_eq
        obtain ⟨claimed, recent, seq, claimed_at, unreturned, data, read⟩ := otherHeld
        simp only [Local, reserved_eq, claimed_eq, seq_eq, data_eq, capacity_eq]
        refine ⟨claimed, recent, seq, claimed_at, fun member => ?_, data, read⟩
        rcases returned_new _ member with old | new
        · exact unreturned old
        · exact apart (by rw [new])

end TellyDB.Utils.ThreadQueue
