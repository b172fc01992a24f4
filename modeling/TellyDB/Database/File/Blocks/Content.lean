import TellyDB.Database.File.Blocks

/-!
Owns what the block writer has written: the blocks and the filled part of the pending block hold
the bytes it was given, in order, as long as every write succeeds.
-/

namespace TellyDB.Database.File

open Resp Lib.Slices

/-- The bytes a state of the block writer stands for: the blocks written, then the filled part
of the pending block. -/
def State.content (state : State) : Bytes :=
  state.written.flatten ++ state.block.take state.blockSize

/-- A state of the block writer between two records. -/
structure State.Sound (state : State) : Prop where
  kept : state.freed = false
  begun : 1 ≤ state.blockSize
  within : state.blockSize ≤ state.blockCapacity
  block_length : state.block.length = state.blockCapacity
  blocks : ∀ block ∈ state.written, block.length = state.blockCapacity

/-- No write fails. -/
def always : Nat → Bool := fun _ => true

variable {state : State} {record : Bytes}

/-! ## One block after the other -/

/-- A whole block is written. -/
theorem writeBlock_always (state : State) : writeBlock always state =
    { state with issued := state.issued + 1, written := state.written ++ [state.block] } := rfl

/-- A whole block of the record replaces the pending block. -/
theorem copy_whole {block : Bytes} {start capacity : Nat} (block_length : block.length = capacity)
    (inside : start + capacity ≤ record.length) :
    copy block 0 record start capacity = some (slice record start capacity) := by
  have length := length_slice inside
  rw [copy_eq_some (by omega) inside, splice, length, List.drop_of_length_le (by omega)]
  simp

/-- What the loop leaves: full blocks with the bytes of the record in front of the rest. -/
structure Dumped (record : Bytes) (state : State) (remaining : Nat) (next : State) (left : Nat) :
    Prop where
  some_left : 1 ≤ left
  left_within : left ≤ state.blockCapacity
  left_le : left ≤ remaining
  written : next.written.flatten =
    state.written.flatten ++ slice record (record.length - remaining) (remaining - left)
  kept : next.freed = false
  capacity_eq : next.blockCapacity = state.blockCapacity
  size_eq : next.size = state.size
  block_length : next.block.length = state.blockCapacity
  blocks : ∀ block ∈ next.written, block.length = state.blockCapacity

theorem dumpBlocks_always {turns remaining : Nat} (kept : state.freed = false)
    (positive : 1 ≤ state.blockCapacity) (block_length : state.block.length = state.blockCapacity)
    (blocks : ∀ block ∈ state.written, block.length = state.blockCapacity)
    (some_left : 1 ≤ remaining) (inside : remaining ≤ record.length) (enough : remaining < turns) :
    ∃ next left, dumpBlocks always record turns state remaining = some (next, left) ∧
      Dumped record state remaining next left := by
  induction turns generalizing state remaining with
  | zero => exact absurd enough (Nat.not_lt_zero _)
  | succ turns inductionHypothesis =>
      rw [dumpBlocks]
      by_cases more : state.blockCapacity < remaining
      · have copied : copy state.block 0 record (record.length - remaining) state.blockCapacity =
            some (slice record (record.length - remaining) state.blockCapacity) :=
          copy_whole block_length (by omega)
        have length : (slice record (record.length - remaining) state.blockCapacity).length =
            state.blockCapacity := length_slice (by omega)
        have later := @inductionHypothesis
          (writeBlock always { state with
            block := slice record (record.length - remaining) state.blockCapacity })
          (remaining - state.blockCapacity) kept positive length
          (by
            intro block member
            rcases List.mem_append.mp member with old | new
            · exact blocks block old
            · rw [List.mem_singleton.mp new]
              exact length)
          (by omega) (by omega) (by omega)
        rcases later with ⟨next, left, ran, dumped⟩
        refine ⟨next, left, ?_, dumped.some_left, dumped.left_within, ?_, ?_, dumped.kept,
          dumped.capacity_eq, dumped.size_eq, dumped.block_length, dumped.blocks⟩
        · rw [if_pos more, copied]
          simp only [Option.bind_eq_bind, Option.bind_some, writeBlock_always, kept,
            Bool.false_eq_true, if_false] at ran ⊢
          exact ran
        · exact Nat.le_trans dumped.left_le (Nat.sub_le _ _)
        · have fewer := dumped.left_le
          rw [dumped.written]
          show (state.written ++ [slice record (record.length - remaining)
            state.blockCapacity]).flatten ++ _ = _
          rw [List.flatten_append, List.flatten_singleton, List.append_assoc,
            show record.length - (remaining - state.blockCapacity) =
              record.length - remaining + state.blockCapacity by omega, slice_append]
          congr 2
          omega
      · refine ⟨state, remaining, if_neg more, some_left, by omega, Nat.le_refl _, ?_, kept, rfl,
          rfl, block_length, blocks⟩
        rw [Nat.sub_self, slice_zero, List.append_nil]

/-! ## One record -/

/-- What one record adds. -/
structure Appended (state : State) (bytes : Bytes) (next : State) : Prop where
  sound : next.Sound
  content : next.content = state.content ++ bytes
  capacity_eq : next.blockCapacity = state.blockCapacity
  size_eq : next.size = state.size + bytes.length

/-- A record that spans blocks is not counted as one block, however large its count is. -/
def Counted (capacity blockSize kvSize : Nat) : Prop :=
  capacity < blockSize + kvSize →
    ((blockSize + kvSize + capacity - 1) / capacity) % UInt32.size ≠ 1

instance (capacity blockSize kvSize : Nat) : Decidable (Counted capacity blockSize kvSize) :=
  inferInstanceAs (Decidable (_ → _))

theorem Counted.iff {blockSize kvSize capacity : Nat} (counted : Counted capacity blockSize kvSize)
    (begun : 1 ≤ blockSize) (within : blockSize ≤ capacity) :
    ((blockSize + kvSize + capacity - 1) / capacity) % UInt32.size ≠ 1 ↔
      capacity < blockSize + kvSize := by
  constructor
  · intro several
    by_contra inside
    have one : (blockSize + kvSize + capacity - 1) / capacity = 1 := by
      rw [Nat.div_eq_iff (by omega)]
      omega
    rw [one] at several
    exact several rfl
  · exact counted

/-- The number of blocks the record touches, without overflow. -/
theorem counted_of_small {blockSize kvSize capacity : Nat} (large : 512 ≤ capacity)
    (bounded : capacity ≤ 65535) (within : blockSize ≤ capacity)
    (small : kvSize ≤ 0x10000000000) : Counted capacity blockSize kvSize := by
  intro spans
  have size : UInt32.size = 4294967296 := rfl
  have count_lt : (blockSize + kvSize + capacity - 1) / capacity < UInt32.size := by
    apply Nat.div_lt_of_lt_mul
    calc blockSize + kvSize + capacity - 1 < 512 * UInt32.size := by omega
      _ ≤ capacity * UInt32.size := Nat.mul_le_mul_right _ large
  rw [Nat.mod_eq_of_lt count_lt, Ne, Nat.div_eq_iff (by omega)]
  omega

theorem dumpRecord_appends (sound : state.Sound) (bounded : state.blockCapacity ≤ 65535)
    (counted : Counted state.blockCapacity state.blockSize record.length) :
    ∃ next, dumpRecord always state record = some next ∧ Appended state record next := by
  have begun := sound.begun
  have count := counted.iff begun sound.within
  have within := sound.within
  have block_length := sound.block_length
  have size : UInt16.size = 65536 := rfl
  rw [dumpRecord, if_neg (by rw [sound.kept]; exact Bool.false_ne_true)]
  by_cases spans : state.blockCapacity < state.blockSize + record.length
  · have complete : (((state.blockCapacity : Int) - state.blockSize) %
        (UInt16.size : Nat)).toNat = state.blockCapacity - state.blockSize := by
      rw [size]
      omega
    rw [if_pos (count.mpr spans), complete]
    generalize complete_eq : state.blockCapacity - state.blockSize = filled
    have first : copy state.block state.blockSize record 0 filled =
        some (splice state.block state.blockSize (slice record 0 filled)) :=
      copy_eq_some (by omega) (by omega)
    have part_length : (slice record 0 filled).length = filled := length_slice (by omega)
    have block_eq : splice state.block state.blockSize (slice record 0 filled) =
        state.block.take state.blockSize ++ slice record 0 filled := by
      rw [splice, part_length, List.drop_of_length_le (by omega), List.append_nil]
    have full_length : (state.block.take state.blockSize ++ slice record 0 filled).length =
        state.blockCapacity := by
      rw [List.length_append, List.length_take, part_length]
      omega
    rw [block_eq] at first
    have ran := @dumpBlocks_always
      (writeBlock always { state with
        block := state.block.take state.blockSize ++ slice record 0 filled })
      record (record.length + 1) (record.length - filled)
      sound.kept (by show 1 ≤ state.blockCapacity; omega) full_length
      (by
        intro block member
        rcases List.mem_append.mp member with old | new
        · exact sound.blocks block old
        · rw [List.mem_singleton.mp new]
          exact full_length)
      (by omega) (by omega) (by omega)
    rcases ran with ⟨reached, left, looped, dumped⟩
    have fewer := dumped.left_le
    have leftWithin : left ≤ state.blockCapacity := dumped.left_within
    have last_length : reached.block.length = state.blockCapacity := dumped.block_length
    have last : copy reached.block 0 record (record.length - left) left =
        some (splice reached.block 0 (slice record (record.length - left) left)) :=
      copy_eq_some (by omega) (by omega)
    have rest_length : (slice record (record.length - left) left).length = left :=
      length_slice (by omega)
    refine ⟨{ reached with
      block := splice reached.block 0 (slice record (record.length - left) left)
      blockSize := left, size := reached.size + record.length }, ?_, ?_, ?_, ?_, ?_⟩
    · simp only [first, Option.bind_eq_bind, Option.bind_some, writeBlock_always, sound.kept,
        Bool.false_eq_true, if_false] at looped ⊢
      rw [looped]
      simp only [Option.bind_some, dumped.kept, Bool.false_eq_true, if_false, last]
    · refine ⟨dumped.kept, dumped.some_left, ?_, ?_, ?_⟩
      · show left ≤ reached.blockCapacity
        rw [dumped.capacity_eq]
        exact leftWithin
      · show (splice reached.block 0 _).length = reached.blockCapacity
        rw [length_splice (by omega), dumped.capacity_eq]
        exact last_length
      · intro block member
        show block.length = reached.blockCapacity
        rw [dumped.capacity_eq]
        exact dumped.blocks block member
    · show reached.written.flatten ++ (splice reached.block 0 _).take left = _
      have taken : (splice reached.block 0 (slice record (record.length - left) left)).take
          (0 + (slice record (record.length - left) left).length) =
          reached.block.take 0 ++ slice record (record.length - left) left :=
        take_splice (Nat.zero_le _)
      rw [rest_length, Nat.zero_add, List.take_zero, List.nil_append] at taken
      rw [taken, dumped.written, State.content]
      show (state.written ++ [_]).flatten ++ _ ++ _ = _
      rw [List.flatten_append, List.flatten_singleton]
      simp only [List.append_assoc]
      congr 2
      have whole : slice record 0 record.length = record := by
        rw [slice, List.drop_zero, List.take_length]
      calc slice record 0 filled ++ (slice record (record.length - (record.length - filled))
              (record.length - filled - left) ++ slice record (record.length - left) left)
          = slice record 0 filled ++ (slice record (0 + filled) (record.length - filled - left) ++
              slice record (0 + filled + (record.length - filled - left)) left) := by
            congr 3 <;> omega
        _ = slice record 0 (filled + (record.length - filled - left + left)) := by
            rw [slice_append, slice_append]
        _ = slice record 0 record.length := by
            congr 1
            omega
        _ = record := whole
    · show reached.blockCapacity = _
      rw [dumped.capacity_eq]
      rfl
    · show reached.size + record.length = _
      rw [dumped.size_eq]
      rfl
  · rw [if_neg (fun differs => spans (count.mp differs))]
    have copied : copy state.block state.blockSize record 0 record.length =
        some (splice state.block state.blockSize (slice record 0 record.length)) :=
      copy_eq_some (by omega) (by omega)
    have whole : slice record 0 record.length = record := by
      rw [slice, List.drop_zero, List.take_length]
    rw [whole] at copied
    refine ⟨{ state with
      block := splice state.block state.blockSize record
      blockSize := state.blockSize + record.length, size := state.size + record.length }, ?_,
      ⟨sound.kept, ?_, ?_, ?_, sound.blocks⟩, ?_, rfl, rfl⟩
    · simp only [copied, Option.bind_eq_bind, Option.bind_some]
    · exact Nat.le_trans sound.begun (Nat.le_add_right _ _)
    · exact Nat.le_of_not_lt spans
    · show (splice state.block state.blockSize record).length = _
      rw [length_splice (by omega)]
      exact block_length
    · show state.written.flatten ++ (splice state.block _ record).take _ = _
      rw [take_splice (by omega), State.content, List.append_assoc]

/-! ## One record after the other -/

theorem dumpRecords_appends {records : List Bytes} (sound : state.Sound)
    (large : 512 ≤ state.blockCapacity) (bounded : state.blockCapacity ≤ 65535)
    (sizes : ∀ record ∈ records, 1 ≤ record.length ∧ record.length ≤ 0x10000000000) :
    ∃ next, dumpRecords always state records = some next ∧
      Appended state records.flatten next := by
  induction records generalizing state with
  | nil =>
      refine ⟨state, rfl, sound, ?_, rfl, rfl⟩
      rw [List.flatten_nil, List.append_nil]
  | cons record rest inductionHypothesis =>
      have own := sizes record List.mem_cons_self
      have counted := counted_of_small large bounded sound.within own.2
      rcases dumpRecord_appends sound bounded counted with ⟨middle, dumped, appended⟩
      have capacity := appended.capacity_eq
      rcases inductionHypothesis appended.sound (by omega) (by omega)
        (fun other member => sizes other (List.mem_cons_of_mem _ member)) with ⟨next, ran, later⟩
      refine ⟨next, ?_, later.sound, ?_, later.capacity_eq.trans capacity, ?_⟩
      · rw [dumpRecords, dumped]
        exact ran
      · rw [later.content, appended.content, List.flatten_cons, List.append_assoc]
      · rw [later.size_eq, appended.size_eq, List.flatten_cons, List.length_append, Nat.add_assoc]

/-- The block writer before any record, with `blockSize` bytes in the block. -/
def pending (size blockSize : Nat) (block : Bytes) : State :=
  ⟨size, blockSize, block.length, block, [], 0, false⟩

/-- However records of any length follow each other, the blocks written and the filled part of
the pending block hold the initial bytes and all records, and `size` has grown by their length. -/
theorem dumpRecords_content {block : Bytes} {blockSize : Nat} (large : 512 ≤ block.length)
    (bounded : block.length ≤ 65535) (begun : 1 ≤ blockSize) (within : blockSize ≤ block.length)
    (size : Nat) {records : List Bytes}
    (sizes : ∀ record ∈ records, 1 ≤ record.length ∧ record.length ≤ 0x10000000000) :
    ∃ reached, dumpRecords always (pending size blockSize block) records = some reached ∧
      reached.written.flatten ++ reached.block.take reached.blockSize =
        block.take blockSize ++ records.flatten ∧
      1 ≤ reached.blockSize ∧ reached.blockSize ≤ block.length ∧
      (∀ whole ∈ reached.written, whole.length = block.length) ∧
      reached.size = size + (records.map List.length).sum := by
  have sound : (pending size blockSize block).Sound :=
    ⟨rfl, begun, within, rfl, fun _ member => absurd member List.not_mem_nil⟩
  rcases dumpRecords_appends sound large bounded sizes with ⟨reached, ran, appended⟩
  have capacity : reached.blockCapacity = block.length := appended.capacity_eq
  refine ⟨reached, ran, appended.content, appended.sound.begun, ?_, ?_, ?_⟩
  · rw [← capacity]
    exact appended.sound.within
  · intro whole member
    rw [← capacity]
    exact appended.sound.blocks whole member
  · rw [appended.size_eq, List.length_flatten]
    rfl

/-- An empty block of 512 bytes. -/
def sampleBlock : Bytes := List.replicate 512 0

/-- A record that spans two blocks, then one that ends where its block ends. -/
def sampleRecords : List Bytes := [List.replicate 600 1, List.replicate 417 2]

theorem length_sampleBlock : sampleBlock.length = 512 := List.length_replicate

theorem length_sampleRecords :
    ∀ record ∈ sampleRecords, 1 ≤ record.length ∧ record.length ≤ 0x10000000000 := by
  intro record member
  simp only [sampleRecords, List.mem_cons, List.not_mem_nil, or_false] at member
  rcases member with rfl | rfl <;> rw [List.length_replicate] <;> decide

theorem dumpRecords_content_sample : ∃ reached,
    dumpRecords always (pending 7 7 sampleBlock) sampleRecords = some reached ∧
      reached.written.flatten ++ reached.block.take reached.blockSize =
        sampleBlock.take 7 ++ sampleRecords.flatten ∧
      1 ≤ reached.blockSize ∧ reached.blockSize ≤ sampleBlock.length ∧
      (∀ whole ∈ reached.written, whole.length = sampleBlock.length) ∧
      reached.size = 7 + (sampleRecords.map List.length).sum :=
  dumpRecords_content (by rw [length_sampleBlock]) (by rw [length_sampleBlock]; decide) (by decide)
    (by rw [length_sampleBlock]; decide) 7 length_sampleRecords

end TellyDB.Database.File
