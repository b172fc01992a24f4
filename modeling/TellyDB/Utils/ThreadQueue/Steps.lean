import TellyDB.Utils.ThreadQueue.Frame

/-!
Owns the preservation of the queue invariant: one lemma for each step that
changes the queue, one for all steps that only move a thread.
-/

namespace TellyDB.Utils.ThreadQueue

variable {τ β : Type} {type : Nat} [DecidableEq τ]

/-! ## Steps that only move a thread -/

theorem isWriting_setThread {state : State τ β type} {thread : τ} {next : ThreadState β type}
    (outside : (state.threads thread).copyPosition = none) {position : Nat}
    (writer : IsWriting state position) : IsWriting (state.setThread thread next) position :=
  isWriting_frame (fun _ other => State.setThread_of_ne _ other _)
    (fun _ _ _ at_copy => by simp [at_copy, ThreadState.copyPosition] at outside) writer

theorem isReading_setThread {state : State τ β type} {thread : τ} {next : ThreadState β type}
    (outside : (state.threads thread).copyPosition = none) {position : Nat}
    (reader : IsReading state position) : IsReading (state.setThread thread next) position :=
  isReading_frame (fun _ other => State.setThread_of_ne _ other _)
    (fun _ _ _ at_copy => by simp [at_copy, ThreadState.copyPosition] at outside) reader

/-- A step outside the critical ones changes the local variables of one thread only. -/
theorem Invariant.setThread {state : State τ β type} (invariant : Invariant state) {thread : τ}
    {next : ThreadState β type} (outside : (state.threads thread).copyPosition = none)
    (held : Local state thread next) : Invariant (state.setThread thread next) where
  capacity_pow := invariant.capacity_pow
  two_le_capacity := invariant.two_le_capacity
  end_eq := invariant.end_eq
  at_eq := invariant.at_eq
  at_le_end := invariant.at_le_end
  end_le := invariant.end_le
  untouched := invariant.untouched
  stage := by
    intro position reserved recent
    cases invariant.stage position reserved recent with
    | writing unclaimed seq writer =>
        exact .writing unclaimed seq (isWriting_setThread outside writer)
    | full unclaimed seq data => exact .full unclaimed seq data
    | reading claimed seq reader data =>
        exact .reading claimed seq (isReading_setThread outside reader) data
    | free claimed seq left => exact .free claimed seq left
  retired := invariant.retired
  locals := by
    intro other
    by_cases same : other = thread
    · subst same
      rw [State.setThread_self]
      exact held
    · rw [State.setThread_of_ne _ same]
      exact invariant.locals other
  claims := invariant.claims
  returned_nodup := invariant.returned_nodup
  returned_claimed := invariant.returned_claimed
  returned_reserved := invariant.returned_reserved

/-! ## Reserving and claiming -/

theorem later_reserve (state : State τ β type) (thread : τ) (value : Element β type)
    (position : Word) : Later state (reserve state thread value position) where
  capacity_eq := rfl
  reserved_prefix := List.prefix_append ..
  claimed_prefix := List.prefix_rfl
  seq_le := fun _ => le_rfl

theorem reserve_invariant {state : State τ β type} (invariant : Invariant state) {thread : τ}
    {value : Element β type} {position : Word}
    (noWrap : NoWrap (reserve state thread value position))
    (testing : state.threads thread = .pushTest value position position)
    (current : state.queue.qend = position) :
    Invariant (reserve state thread value position) := by
  have later := later_reserve state thread value position
  have position_eq : position.toNat = state.history.reserved.length := by
    rw [← current, invariant.end_eq]
  have outside : (state.threads thread).copyPosition = none := by
    rw [testing]
    rfl
  have held := invariant.locals thread
  rw [testing, Local, position_eq] at held
  obtain ⟨seq, previous⟩ := invariant.offered_free held.2
  have twoLe := invariant.two_le_capacity
  have reserved_length : (reserve state thread value position).history.reserved.length =
      state.history.reserved.length + 1 := by
    simp [reserve, State.setThread]
  have at_end : (reserve state thread value position).history.reserved[position.toNat]? =
      some (thread, value) := by
    simp [reserve, State.setThread, position_eq]
  have room : state.history.reserved.length + 1 + state.queue.capacity.toNat ≤ 2 ^ 64 := by
    rw [← reserved_length]
    exact noWrap
  refine {
    capacity_pow := invariant.capacity_pow
    two_le_capacity := twoLe
    end_eq := ?_
    at_eq := invariant.at_eq
    at_le_end := ?_
    end_le := ?_
    untouched := ?_
    stage := ?_
    retired := ?_
    locals := ?_
    claims := invariant.claims
    returned_nodup := invariant.returned_nodup
    returned_claimed := invariant.returned_claimed
    returned_reserved := ?_ }
  · rw [reserved_length, ← position_eq]
    change (position + 1).toNat = _
    bv_omega
  · rw [reserved_length]
    exact Nat.le_succ_of_le invariant.at_le_end
  · rw [reserved_length]
    change _ ≤ state.history.claimed.length + state.queue.capacity.toNat
    by_cases first : state.history.reserved.length < state.queue.capacity.toNat
    · omega
    · have claimed := (previous (by omega)).2
      omega
  · intro index untouched bound
    rw [reserved_length] at untouched
    exact invariant.untouched index (by omega) bound
  · intro other reserved recent
    rw [reserved_length] at reserved recent
    change _ ≤ other + state.queue.capacity.toNat at recent
    by_cases old : other < state.history.reserved.length
    · have reserved_at := later.reserved_at old
      cases invariant.stage other old (by omega) with
      | writing unclaimed seq writer =>
          exact .writing unclaimed seq (isWriting_setThread outside writer)
      | full unclaimed seq data => exact .full unclaimed seq (by rw [reserved_at]; exact data)
      | reading claimed seq reader data =>
          exact .reading claimed seq (isReading_setThread outside reader)
            (by rw [reserved_at]; exact data)
      | free claimed seq left => exact .free claimed seq left
    · have other_eq : other = state.history.reserved.length := by omega
      subst other_eq
      exact .writing invariant.at_le_end seq
        ⟨thread, value, position, ∅, State.setThread_self .., position_eq⟩
  · intro other retired
    rw [reserved_length] at retired
    change other + state.queue.capacity.toNat < _ at retired
    by_cases old : other + state.queue.capacity.toNat < state.history.reserved.length
    · exact invariant.retired other old
    · have other_eq : other = state.history.reserved.length - state.queue.capacity.toNat := by
        omega
      rw [other_eq]
      exact (previous (by omega)).1
  · intro other
    by_cases same : other = thread
    · subst same
      rw [show (reserve state other value position).threads other =
        .pushCopy value position ∅ from State.setThread_self ..]
      refine ⟨by omega, ?_, ?_, at_end, by simp⟩
      · rw [position_eq]
        exact invariant.at_le_end
      · rw [position_eq]
        exact seq
    · have unmoved : (reserve state thread value position).threads other = state.threads other :=
        State.setThread_of_ne _ same _
      have held := invariant.locals other
      rw [unmoved]
      refine held.later later ?_ ?_
      · intro pushed word copied at_copy
        rw [at_copy] at held ⊢
        obtain ⟨reserved, unclaimed, seq, reserved_at, written⟩ := held
        exact ⟨by omega, unclaimed, seq, by rw [later.reserved_at reserved, reserved_at], written⟩
      · intro dst word copied at_copy
        rw [at_copy] at held ⊢
        obtain ⟨claimed, recent, reading, claimed_at, unreturned, data, read⟩ := held
        have ordered := invariant.at_le_end
        refine ⟨claimed, ?_, reading, claimed_at, unreturned, ?_, read⟩
        · -- the slot of a position still being read does not offer the next one
          rw [reserved_length]
          change _ ≤ word.toNat + state.queue.capacity.toNat
          by_contra overtaken
          have aliased : state.history.reserved.length =
              word.toNat + state.queue.capacity.toNat := by omega
          have same_slot : seqOf state state.history.reserved.length =
              seqOf state word.toNat := by
            rw [seqOf, seqOf, aliased, Nat.add_mod_right]
          omega
        · rw [later.reserved_at (by omega)]
          exact data
  · intro record member
    have returned := List.mem_map_of_mem (f := fun entry => entry.2.toNat)
      (invariant.returned_claimed record member)
    rw [invariant.claims, List.mem_range] at returned
    have ordered := invariant.at_le_end
    rw [later.reserved_at (by simp only at returned; omega)]
    exact invariant.returned_reserved record member

theorem later_claim (state : State τ β type) (thread : τ) (dst : Element β type)
    (position : Word) : Later state (claim state thread dst position) where
  capacity_eq := rfl
  reserved_prefix := List.prefix_rfl
  claimed_prefix := List.prefix_append ..
  seq_le := fun _ => le_rfl

theorem claim_invariant {state : State τ β type} (invariant : Invariant state) {thread : τ}
    {dst : Element β type} {position : Word}
    (noWrap : NoWrap (claim state thread dst position))
    (testing : state.threads thread = .popTest dst position (position + 1))
    (current : state.queue.qat = position) :
    Invariant (claim state thread dst position) := by
  have later := later_claim state thread dst position
  have position_eq : position.toNat = state.history.claimed.length := by
    rw [← current, invariant.at_eq]
  have outside : (state.threads thread).copyPosition = none := by
    rw [testing]
    rfl
  have ordered := invariant.at_le_end
  have twoLe := invariant.two_le_capacity
  have room : state.history.reserved.length + state.queue.capacity.toNat ≤ 2 ^ 64 := noWrap
  have successor : (position + 1).toNat = state.history.claimed.length + 1 := by bv_omega
  have held := invariant.locals thread
  rw [testing, Local, successor, position_eq] at held
  obtain ⟨waiting, seq, data⟩ := invariant.offered_full held.2
  have claimed_length : (claim state thread dst position).history.claimed.length =
      state.history.claimed.length + 1 := by
    simp [claim, State.setThread]
  have at_end : (claim state thread dst position).history.claimed[position.toNat]? =
      some (thread, position) := by
    simp [claim, State.setThread, position_eq]
  have unreturned : position.toNat ∉ returned state := by
    intro member
    obtain ⟨record, member, record_eq⟩ := List.mem_map.mp member
    have claimed := List.mem_map_of_mem (f := fun entry => entry.2.toNat)
      (invariant.returned_claimed record member)
    rw [invariant.claims, List.mem_range] at claimed
    simp only at claimed
    omega
  refine {
    capacity_pow := invariant.capacity_pow
    two_le_capacity := twoLe
    end_eq := invariant.end_eq
    at_eq := ?_
    at_le_end := ?_
    end_le := ?_
    untouched := invariant.untouched
    stage := ?_
    retired := invariant.retired
    locals := ?_
    claims := ?_
    returned_nodup := invariant.returned_nodup
    returned_claimed := ?_
    returned_reserved := invariant.returned_reserved }
  · rw [claimed_length]
    exact successor
  · rw [claimed_length]
    exact waiting
  · rw [claimed_length]
    have bounded := invariant.end_le
    change state.history.reserved.length ≤ _ + state.queue.capacity.toNat
    omega
  · intro other reserved recent
    by_cases same : other = state.history.claimed.length
    · subst same
      refine .reading (by omega) seq ?_ data
      exact ⟨thread, dst, position, ∅, State.setThread_self .., position_eq⟩
    · cases invariant.stage other reserved recent with
      | writing unclaimed seq writer =>
          exact .writing (by omega) seq (isWriting_setThread outside writer)
      | full unclaimed seq data => exact .full (by omega) seq data
      | reading claimed seq reader data =>
          exact .reading (by omega) seq (isReading_setThread outside reader) data
      | free claimed seq left => exact .free (by omega) seq left
  · intro other
    by_cases same : other = thread
    · subst same
      rw [show (claim state other dst position).threads other =
        .popCopy dst position ∅ from State.setThread_self ..]
      have bounded := invariant.end_le
      refine ⟨by omega, ?_, ?_, at_end, unreturned, ?_, by simp⟩
      · rw [position_eq]
        exact bounded
      · rw [position_eq]
        exact seq
      · rw [position_eq]
        exact data
    · have unmoved : (claim state thread dst position).threads other = state.threads other :=
        State.setThread_of_ne _ same _
      have held := invariant.locals other
      rw [unmoved]
      refine held.later later ?_ ?_
      · intro pushed word copied at_copy
        rw [at_copy] at held ⊢
        obtain ⟨reserved, unclaimed, writing, reserved_at, written⟩ := held
        refine ⟨reserved, ?_, writing, reserved_at, written⟩
        -- the slot of a position still being written does not offer it to a pop
        rw [claimed_length]
        by_contra overtaken
        have same_position : word.toNat = state.history.claimed.length := by omega
        rw [same_position] at writing
        omega
      · intro popped word copied at_copy
        rw [at_copy] at held ⊢
        obtain ⟨claimed, recent, reading, claimed_at, unreturned, data, read⟩ := held
        exact ⟨by omega, recent, reading, by rw [later.claimed_at claimed, claimed_at],
          unreturned, data, read⟩
  · rw [claimed_length, List.range_succ, ← invariant.claims]
    simp [claim, State.setThread, position_eq]
  · intro record member
    exact List.mem_append_left _ (invariant.returned_claimed record member)

/-! ## Copying bytes and storing the sequence number -/

theorem writeByte_invariant {state : State τ β type} (invariant : Invariant state) {thread : τ}
    {value : Element β type} {position : Word} {copied : Finset (Fin type)} (byte : Fin type)
    (copying : state.threads thread = .pushCopy value position copied) :
    Invariant (writeByte state thread value position copied byte) := by
  have copies : (state.threads thread).copyPosition = some position := by
    rw [copying]
    rfl
  have held := invariant.locals thread
  rw [copying] at held
  obtain ⟨reserved, unclaimed, seq, reserved_at, written⟩ := held
  have moved : (writeByte state thread value position copied byte).threads thread =
      .pushCopy value position (insert byte copied) := State.setThread_self ..
  have seq_next : seqOf (writeByte state thread value position copied byte) position.toNat =
      position.toNat := by
    rw [writeByte, State.setThread, invariant.seqOf_setSlot, if_pos rfl, invariant.seq_toNat, seq]
  have data_next : dataOf (writeByte state thread value position copied byte) position.toNat =
      Function.update (dataOf state position.toNat) byte (value byte) := by
    rw [writeByte, State.setThread, invariant.dataOf_setSlot, if_pos rfl, invariant.data_eq]
  refine invariant.store copies rfl rfl rfl
    (fun _ other => State.setThread_of_ne _ other _) ?_ (fun _ => id) (fun _ => Or.inl)
    (.writing unclaimed seq_next ⟨thread, value, position, _, moved, rfl⟩) ?_
    invariant.returned_nodup invariant.returned_claimed invariant.returned_reserved
  · rw [invariant.seq_toNat]
  · rw [moved]
    refine ⟨reserved, unclaimed, seq_next, reserved_at, fun other member => ?_⟩
    rw [data_next, Function.update_apply]
    split
    · next same => rw [same]
    · next different => exact written other (Finset.mem_of_mem_insert_of_ne member different)

theorem publish_invariant {state : State τ β type} (invariant : Invariant state)
    (noWrap : NoWrap state) {thread : τ} {value : Element β type} {position : Word}
    (copying : state.threads thread = .pushCopy value position Finset.univ) :
    Invariant (publish state thread position) := by
  have copies : (state.threads thread).copyPosition = some position := by
    rw [copying]
    rfl
  have held := invariant.locals thread
  rw [copying] at held
  obtain ⟨reserved, unclaimed, seq, reserved_at, written⟩ := held
  have moved : (publish state thread position).threads thread = .idle := State.setThread_self ..
  have successor : (position + 1).toNat = position.toNat + 1 := by
    have room : _ ≤ 2 ^ 64 := noWrap
    have twoLe := invariant.two_le_capacity
    bv_omega
  have complete : dataOf state position.toNat = value :=
    funext fun byte => written byte (Finset.mem_univ byte)
  refine invariant.store copies rfl rfl rfl
    (fun _ other => State.setThread_of_ne _ other _) ?_ (fun _ => id) (fun _ => Or.inl)
    (.full unclaimed ?_ ?_) (by rw [moved]; trivial)
    invariant.returned_nodup invariant.returned_claimed invariant.returned_reserved
  · rw [successor, seq]
    exact Nat.le_succ _
  · rw [publish, State.setThread, invariant.seqOf_setSlot, if_pos rfl, successor]
  · have data_next : dataOf (publish state thread position) position.toNat =
        dataOf state position.toNat := by
      rw [publish, State.setThread, invariant.dataOf_setSlot, if_pos rfl, invariant.data_eq]
    rw [data_next, complete]
    change (state.history.reserved[position.toNat]?).map Prod.snd = some value
    rw [reserved_at]
    rfl

theorem setSlot_slotAt (queue : ThreadQueue β type) (position : Word) :
    queue.setSlot position (queue.slotAt position) = queue := by
  rw [setSlot, slotAt, Function.update_eq_self]

theorem readByte_invariant {state : State τ β type} (invariant : Invariant state) {thread : τ}
    {dst : Element β type} {position : Word} {copied : Finset (Fin type)} (byte : Fin type)
    (copying : state.threads thread = .popCopy dst position copied) :
    Invariant (readByte state thread dst position copied byte) := by
  have copies : (state.threads thread).copyPosition = some position := by
    rw [copying]
    rfl
  have held := invariant.locals thread
  rw [copying] at held
  obtain ⟨claimed, recent, seq, claimed_at, unreturned, data, read⟩ := held
  have moved : (readByte state thread dst position copied byte).threads thread = .popCopy
      (Function.update dst byte ((state.queue.slotAt position).data byte)) position
      (insert byte copied) := State.setThread_self ..
  refine invariant.store copies
    (setSlot_slotAt _ _).symm rfl rfl
    (fun _ other => State.setThread_of_ne _ other _) ?_ (fun _ => id) (fun _ => Or.inl)
    (.reading claimed seq ⟨thread, _, position, _, moved, rfl⟩ data) ?_
    invariant.returned_nodup invariant.returned_claimed invariant.returned_reserved
  · exact (invariant.seq_toNat position).ge
  · rw [moved]
    refine ⟨claimed, recent, seq, claimed_at, unreturned, data, fun other member => ?_⟩
    rw [Function.update_apply]
    split
    · next same =>
        rw [invariant.data_eq, same]
        rfl
    · next different => exact read other (Finset.mem_of_mem_insert_of_ne member different)

theorem release_invariant {state : State τ β type} (invariant : Invariant state)
    (noWrap : NoWrap state) {thread : τ} {dst : Element β type} {position : Word}
    (copying : state.threads thread = .popCopy dst position Finset.univ) :
    Invariant (release state thread dst position) := by
  have copies : (state.threads thread).copyPosition = some position := by
    rw [copying]
    rfl
  have held := invariant.locals thread
  rw [copying] at held
  obtain ⟨claimed, recent, seq, claimed_at, unreturned, data, read⟩ := held
  have moved : (release state thread dst position).threads thread = .idle :=
    State.setThread_self ..
  have twoLe := invariant.two_le_capacity
  have turned : (position + state.queue.capacity).toNat =
      position.toNat + state.queue.capacity.toNat := by
    have room : _ ≤ 2 ^ 64 := noWrap
    have ordered := invariant.at_le_end
    rw [BitVec.toNat_add, Nat.mod_eq_of_lt (by omega)]
  have complete : dst = dataOf state position.toNat :=
    funext fun byte => read byte (Finset.mem_univ byte)
  have returned_next : returned (release state thread dst position) =
      returned state ++ [position.toNat] := by
    simp [release, State.setThread, returned]
  refine invariant.store copies rfl rfl rfl
    (fun _ other => State.setThread_of_ne _ other _) ?_ ?_ ?_
    (.free claimed ?_ ?_) (by rw [moved]; trivial) ?_ ?_ ?_
  · rw [turned, seq]
    omega
  · intro other member
    rw [returned_next]
    exact List.mem_append_left _ member
  · intro other member
    rwa [returned_next, List.mem_append, List.mem_singleton] at member
  · rw [release, State.setThread, invariant.seqOf_setSlot, if_pos rfl, turned]
    rfl
  · rw [returned_next]
    exact List.mem_append_right _ (List.mem_singleton_self _)
  · rw [returned_next]
    exact List.Nodup.append invariant.returned_nodup (List.nodup_singleton _)
      (List.disjoint_singleton.mpr unreturned)
  · intro record member
    rcases List.mem_append.mp member with old | new
    · exact invariant.returned_claimed record old
    · rw [List.mem_singleton.mp new]
      exact List.mem_of_getElem? claimed_at
  · intro record member
    rcases List.mem_append.mp member with old | new
    · exact invariant.returned_reserved record old
    · rw [List.mem_singleton.mp new, complete]
      exact data

/-! ## Every step -/

/-- What one step can do. -/
inductive Effect (state : State τ β type) : State τ β type → Prop where
  | move {thread : τ} {next : ThreadState β type}
      (outside : (state.threads thread).copyPosition = none)
      (held : Invariant state → Local state thread next) :
      Effect state (state.setThread thread next)
  | reserve {thread : τ} {value : Element β type} {position : Word}
      (testing : state.threads thread = .pushTest value position position)
      (current : state.queue.qend = position) :
      Effect state (reserve state thread value position)
  | writeByte {thread : τ} {value : Element β type} {position : Word}
      {copied : Finset (Fin type)} (byte : Fin type)
      (copying : state.threads thread = .pushCopy value position copied) :
      Effect state (writeByte state thread value position copied byte)
  | publish {thread : τ} {value : Element β type} {position : Word}
      (copying : state.threads thread = .pushCopy value position Finset.univ) :
      Effect state (publish state thread position)
  | claim {thread : τ} {dst : Element β type} {position : Word}
      (testing : state.threads thread = .popTest dst position (position + 1))
      (current : state.queue.qat = position) :
      Effect state (claim state thread dst position)
  | readByte {thread : τ} {dst : Element β type} {position : Word}
      {copied : Finset (Fin type)} (byte : Fin type)
      (copying : state.threads thread = .popCopy dst position copied) :
      Effect state (readByte state thread dst position copied byte)
  | release {thread : τ} {dst : Element β type} {position : Word}
      (copying : state.threads thread = .popCopy dst position Finset.univ) :
      Effect state (release state thread dst position)

theorem eq_of_diff_eq_zero {left right : Word} (equal : (left - right).toInt = 0) :
    left = right := by
  have zero : left - right = 0 := BitVec.eq_of_toInt_eq (by rw [equal]; rfl)
  bv_omega

theorem advance_effect {state next : State τ β type} {thread : τ} {attempted : Bool}
    (advanced : advance state thread attempted = some next) : Effect state next := by
  rw [advance] at advanced
  cases at_thread : state.threads thread with
  | idle =>
      rw [at_thread] at advanced
      cases advanced
  | pushLoadEnd value =>
      rw [at_thread] at advanced
      cases advanced
      exact .move (by rw [at_thread]; rfl) fun invariant => invariant.end_eq.le
  | pushLoadSeq value position =>
      rw [at_thread] at advanced
      cases advanced
      refine .move (by rw [at_thread]; rfl) fun invariant => ?_
      have held := invariant.locals thread
      rw [at_thread] at held
      exact ⟨held, (invariant.seq_toNat position).le⟩
  | pushTest value position seq =>
      rw [at_thread] at advanced
      have outside : (state.threads thread).copyPosition = none := by rw [at_thread]; rfl
      simp only at advanced
      split_ifs at advanced with equal taken negative
      · have seq_eq := eq_of_diff_eq_zero equal
        cases advanced
        subst seq_eq
        exact .reserve at_thread taken.2
      · cases advanced
        exact .move outside fun invariant => invariant.end_eq.le
      · cases advanced
        exact .move outside fun _ => trivial
      · cases advanced
        exact .move outside fun invariant => invariant.end_eq.le
  | pushCopy value position copied =>
      rw [at_thread] at advanced
      simp only at advanced
      split_ifs at advanced with complete
      cases advanced
      rw [complete] at at_thread
      exact .publish at_thread
  | popLoadAt dst =>
      rw [at_thread] at advanced
      cases advanced
      exact .move (by rw [at_thread]; rfl) fun invariant => invariant.at_eq.le
  | popLoadSeq dst position =>
      rw [at_thread] at advanced
      cases advanced
      refine .move (by rw [at_thread]; rfl) fun invariant => ?_
      have held := invariant.locals thread
      rw [at_thread] at held
      exact ⟨held, (invariant.seq_toNat position).le⟩
  | popTest dst position seq =>
      rw [at_thread] at advanced
      have outside : (state.threads thread).copyPosition = none := by rw [at_thread]; rfl
      simp only at advanced
      split_ifs at advanced with equal taken negative
      · have seq_eq := eq_of_diff_eq_zero equal
        cases advanced
        subst seq_eq
        exact .claim at_thread taken.2
      · cases advanced
        exact .move outside fun invariant => invariant.at_eq.le
      · cases advanced
        exact .move outside fun _ => trivial
      · cases advanced
        exact .move outside fun invariant => invariant.at_eq.le
  | popCopy dst position copied =>
      rw [at_thread] at advanced
      simp only at advanced
      split_ifs at advanced with complete
      cases advanced
      rw [complete] at at_thread
      exact .release at_thread

theorem step_effect {state next : State τ β type} {action : Action τ β type}
    (stepped : step state action = some next) : Effect state next := by
  cases action with
  | callPush thread value =>
      rw [step] at stepped
      split at stepped
      · next at_thread =>
          cases stepped
          exact .move (by rw [at_thread]; rfl) fun _ => trivial
      · cases stepped
  | callPop thread dst =>
      rw [step] at stepped
      split at stepped
      · next at_thread =>
          cases stepped
          exact .move (by rw [at_thread]; rfl) fun _ => trivial
      · cases stepped
  | advance thread attempted => exact advance_effect stepped
  | copyByte thread byte =>
      rw [step] at stepped
      split at stepped
      · next at_thread =>
          cases stepped
          exact .writeByte byte at_thread
      · next at_thread =>
          cases stepped
          exact .readByte byte at_thread
      · cases stepped

/-- Reservations only grow, so a state in which no counter has wrapped comes
from one in which none had. -/
theorem Effect.noWrap {state next : State τ β type} (effect : Effect state next)
    (noWrap : NoWrap next) : NoWrap state := by
  cases effect with
  | reserve =>
      have grown : state.history.reserved.length + 1 + state.queue.capacity.toNat ≤ 2 ^ 64 := by
        simpa [NoWrap, ThreadQueue.reserve, State.setThread] using noWrap
      rw [NoWrap]
      omega
  | move | writeByte | publish | claim | readByte | release => exact noWrap

theorem Effect.invariant {state next : State τ β type} (effect : Effect state next)
    (noWrap : NoWrap next) (invariant : Invariant state) : Invariant next := by
  have noWrapBefore := effect.noWrap noWrap
  cases effect with
  | move outside held => exact invariant.setThread outside (held invariant)
  | reserve testing current => exact reserve_invariant invariant noWrap testing current
  | writeByte byte copying => exact writeByte_invariant invariant byte copying
  | publish copying => exact publish_invariant invariant noWrapBefore copying
  | claim testing current => exact claim_invariant invariant noWrap testing current
  | readByte byte copying => exact readByte_invariant invariant byte copying
  | release copying => exact release_invariant invariant noWrapBefore copying

end TellyDB.Utils.ThreadQueue
