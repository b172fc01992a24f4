import TellyDB.Database.Read.Bytes.Delivery
import TellyDB.Lib.ByteSource

/-!
Owns the block reader as a source of bytes: a reader in a loaded block, whose
requests deliver exactly the bytes they ask for, and deliver the bytes of the
file as long as the block behind them is full.
-/

namespace TellyDB.Database.Read

open Resp Lib.Slices Lib.ByteSource

/-! ## What a request keeps -/

/-- The block is loaded, and the position lies in it. -/
structure Standing (arguments : GenericArguments) : Prop where
  loaded : arguments.block.length = arguments.blockSize
  inBlock : arguments.position < arguments.blockSize
  bounded : arguments.blockSize < UInt16.size

theorem copyBlock_length {block bytes : Bytes} {start count : Nat}
    (copied : copyBlock block start count = some bytes) :
    bytes.length = count ∧ start + count ≤ block.length := by
  rw [copyBlock] at copied
  split at copied
  · next inside =>
      cases copied
      exact ⟨length_slice inside, inside⟩
  · cases copied

theorem readBlock_kept {arguments next : GenericArguments}
    (read : readBlock arguments = some next)
    (block_length : arguments.block.length = arguments.blockSize) :
    next.block.length = arguments.blockSize ∧ next.blockSize = arguments.blockSize := by
  rw [readBlock] at read
  split at read
  · next full =>
      cases read
      refine ⟨?_, rfl⟩
      rw [List.length_append, List.length_drop, full, block_length]
      omega
  · cases read

theorem collectBlocks_kept {turns remaining left : Nat} {arguments next : GenericArguments}
    {bytes : Bytes} (ran : collectBlocks turns arguments remaining = some (bytes, left, next))
    (block_length : arguments.block.length = arguments.blockSize) :
    bytes.length + left = remaining ∧ left < arguments.blockSize ∧
      next.block.length = arguments.blockSize ∧ next.blockSize = arguments.blockSize := by
  induction turns generalizing arguments remaining bytes with
  | zero => cases ran
  | succ turns inductionHypothesis =>
      rw [collectBlocks] at ran
      split at ran
      · next more =>
          rw [Option.bind_eq_bind, Option.bind_eq_some_iff] at ran
          rcases ran with ⟨first, copied, ran⟩
          rw [Option.bind_eq_bind, Option.bind_eq_some_iff] at ran
          rcases ran with ⟨middle, read, ran⟩
          rw [Option.bind_eq_bind, Option.bind_eq_some_iff] at ran
          rcases ran with ⟨⟨rest, remains, final⟩, later, made⟩
          cases made
          have firstLength := (copyBlock_length copied).1
          have kept := readBlock_kept read block_length
          have rests := inductionHypothesis later (kept.1.trans kept.2.symm)
          rw [kept.2] at rests
          rw [List.length_append]
          exact ⟨by omega, rests.2⟩
      · next last =>
          cases ran
          exact ⟨Nat.zero_add _, Nat.lt_of_not_le last, block_length, rfl⟩

/-- A request delivers as many bytes as it asks for, and leaves the position in the block. -/
theorem Standing.collectBytes {arguments next : GenericArguments} {count : UInt32} {bytes : Bytes}
    (standing : Standing arguments) (collected : collectBytes arguments count = some (bytes, next)) :
    bytes.length = count.toNat ∧ Standing next := by
  have sizes : UInt16.size = 65536 ∧ UInt32.size = 4294967296 := ⟨rfl, rfl⟩
  have loaded := standing.loaded
  have inBlock := standing.inBlock
  have bounded := standing.bounded
  have small := count.toNat_lt
  rw [Read.collectBytes] at collected
  split at collected
  · next within =>
      rw [Option.bind_eq_bind, Option.bind_eq_some_iff] at collected
      rcases collected with ⟨copy, copied, made⟩
      cases made
      have copyLength := copyBlock_length copied
      refine ⟨copyLength.1, loaded, ?_, bounded⟩
      show (arguments.position + count.toNat) % UInt16.size < arguments.blockSize
      rw [Nat.mod_eq_of_lt (by omega)] at within
      rw [Nat.mod_eq_of_lt (by omega)]
      exact within
  · next beyond =>
      have reaches : arguments.blockSize ≤ arguments.position + count.toNat :=
        Nat.le_trans (Nat.le_of_not_lt beyond) (Nat.mod_le _ _)
      have available : (arguments.blockSize - arguments.position) % UInt16.size =
          arguments.blockSize - arguments.position := Nat.mod_eq_of_lt (by omega)
      rw [available] at collected
      rw [Option.bind_eq_bind, Option.bind_eq_some_iff] at collected
      rcases collected with ⟨first, copied, collected⟩
      rw [Option.bind_eq_bind, Option.bind_eq_some_iff] at collected
      rcases collected with ⟨second, read, collected⟩
      rw [Option.bind_eq_bind, Option.bind_eq_some_iff] at collected
      rcases collected with ⟨⟨middle, left, third⟩, ran, collected⟩
      dsimp only at collected
      rw [Option.bind_eq_some_iff] at collected
      rcases collected with ⟨last, copiedLast, made⟩
      cases made
      have firstLength := (copyBlock_length copied).1
      have lastLength := (copyBlock_length copiedLast).1
      have kept := readBlock_kept read loaded
      have rests := collectBlocks_kept ran (kept.1.trans kept.2.symm)
      rw [kept.2] at rests
      refine ⟨?_, ?_, ?_, ?_⟩
      · rw [List.length_append, List.length_append]
        omega
      · exact rests.2.2.1.trans rests.2.2.2.symm
      · show left < third.blockSize
        rw [rests.2.2.2]
        exact rests.2.1
      · show third.blockSize < _
        rw [rests.2.2.2]
        exact bounded

/-! ## The source -/

/-- `collect_bytes` over a loaded block. A count is a 32-bit number. -/
def blockSource : Source { arguments : GenericArguments // Standing arguments } UInt8 where
  collect state count :=
    if count < UInt32.size then
      match collected : collectBytes state.val (UInt32.ofNat count) with
      | none => none
      | some (bytes, next) => some (bytes, ⟨next, (state.property.collectBytes collected).2⟩)
    else none
  length_eq := by
    intro state count bytes next collected
    split at collected
    · next small =>
        split at collected
        · cases collected
        · next reached served =>
            cases collected
            rw [(state.property.collectBytes served).1]
            exact UInt32.toNat_ofNat_of_lt' small
    · cases collected

theorem At.standing {file : Bytes} {blockSize position : Nat} {arguments : GenericArguments}
    (at_ : At file blockSize position arguments) (positive : 1 ≤ blockSize)
    (bounded : blockSize < UInt16.size) : Standing arguments where
  loaded := at_.loads.block_length.trans at_.loads.size_eq.symm
  inBlock := by
    rw [at_.position_eq, at_.loads.size_eq]
    exact Nat.mod_lt _ positive
  bounded := by
    rw [at_.loads.size_eq]
    exact bounded

/-- The block reader delivers what the file holds from its position on, up to a position whose
block is full. -/
theorem blockSource_delivers {file bytes : Bytes} {blockSize position limit : Nat}
    (positive : 1 ≤ blockSize) (bounded : blockSize < UInt16.size)
    (short : limit + blockSize ≤ UInt32.size)
    (state : { arguments : GenericArguments // Standing arguments })
    (at_ : At file blockSize position state.val)
    (bytes_eq : slice file position bytes.length = bytes)
    (inFile : position + bytes.length ≤ file.length)
    (backed : Backed file.length blockSize (position + bytes.length)) :
    blockSource.Delivers limit state bytes := by
  intro counts
  induction counts generalizing position state bytes with
  | nil => exact fun _ _ => ⟨state, rfl⟩
  | cons count rest inductionHypothesis =>
      intro small inside
      rw [List.sum_cons] at inside
      have sizes : UInt32.size = 4294967296 := rfl
      have countSmall := small count List.mem_cons_self
      have inBlock : position % blockSize < blockSize := Nat.mod_lt _ positive
      have countBits : (UInt32.ofNat count).toNat = count :=
        UInt32.toNat_ofNat_of_lt' (by omega)
      have within : position + (UInt32.ofNat count).toNat ≤ file.length := by
        rw [countBits]
        omega
      have served := (at_.collectBytes positive bounded (backed.earlier (by omega)) within).1
        ⟨by rw [countBits]; omega, backed.earlier (by rw [countBits]; omega)⟩
      rw [countBits] at served
      rcases served with ⟨next, collected, nextAt⟩
      have first : slice file position count = bytes.take count := by
        rw [← bytes_eq, slice, slice, List.take_take, Nat.min_eq_left (by omega)]
      have later : slice file (position + count) (bytes.drop count).length = bytes.drop count := by
        conv_rhs => rw [← bytes_eq]
        rw [slice, slice, List.length_drop, List.drop_take, List.drop_drop]
      have dropLength : (bytes.drop count).length = bytes.length - count := List.length_drop
      have nextStanding := nextAt.standing positive bounded
      rcases inductionHypothesis ⟨next, nextStanding⟩ nextAt later (by omega)
          (by rw [dropLength, show position + count + (bytes.length - count) =
            position + bytes.length by omega]; exact backed)
          (fun other member => small other (List.mem_cons_of_mem _ member)) (by omega) with
        ⟨final, ran⟩
      have requested : blockSource.request count state =
          some (bytes.take count, ⟨next, nextStanding⟩) := by
        show blockSource.collect state count = _
        simp only [blockSource]
        rw [if_pos (by omega)]
        split
        · next failed =>
            rw [collected] at failed
            cases failed
        · next reached other found =>
            have same := collected.symm.trans found
            rw [Option.some.injEq, Prod.mk.injEq, first] at same
            rcases same with ⟨rfl, rfl⟩
            rfl
      refine ⟨final, ?_⟩
      rw [Source.requests, bind_apply, requested, Option.bind_some, bind_apply, ran]
      rfl

/-! ## Where a reader stands -/

/-- The descriptor stands in the file, or at its end. -/
structure Inside (file : Bytes) (blockSize : Nat) (arguments : GenericArguments) : Prop where
  file_eq : arguments.file = file
  size_eq : arguments.blockSize = blockSize
  offset_le : arguments.offset ≤ file.length

/-- What has been loaded and handed out. -/
def GenericArguments.place (arguments : GenericArguments) : Nat :=
  arguments.offset + arguments.position

section Places

variable {file : Bytes} {blockSize : Nat} {arguments next : GenericArguments}

/-- Only a full block is loaded. -/
theorem Inside.readBlock (inside : Inside file blockSize arguments)
    (read : readBlock arguments = some next) :
    Inside file blockSize next ∧ next.offset = arguments.offset + blockSize ∧
      next.position = arguments.position := by
  rw [Read.readBlock] at read
  split at read
  · next full =>
      cases read
      have offset_le : arguments.offset + arguments.blockSize ≤ file.length := by
        rw [slice, List.length_take, List.length_drop, inside.file_eq] at full
        have begun := inside.offset_le
        omega
      refine ⟨⟨inside.file_eq, inside.size_eq, ?_⟩, ?_, rfl⟩
      · rw [full]
        exact offset_le
      · rw [full, inside.size_eq]
  · cases read

/-- What the loop has loaded and what remains are what was loaded and remained before. -/
theorem Inside.collectBlocks {turns remaining left : Nat} {bytes : Bytes}
    (inside : Inside file blockSize arguments)
    (ran : collectBlocks turns arguments remaining = some (bytes, left, next)) :
    Inside file blockSize next ∧ next.offset + left = arguments.offset + remaining := by
  induction turns generalizing arguments remaining bytes with
  | zero => cases ran
  | succ turns inductionHypothesis =>
      rw [Read.collectBlocks] at ran
      split at ran
      · next more =>
          simp only [Option.bind_eq_bind, Option.bind_eq_some_iff, Option.some.injEq,
            Prod.mk.injEq] at ran
          obtain ⟨first, -, middle, read, ⟨rest, remains, final⟩, later, -, rfl, rfl⟩ := ran
          obtain ⟨middleInside, offset_eq, -⟩ := inside.readBlock read
          obtain ⟨kept, moved⟩ := inductionHypothesis middleInside later
          rw [inside.size_eq] at more
          rw [middleInside.size_eq] at moved
          exact ⟨kept, by omega⟩
      · cases ran
        exact ⟨inside, rfl⟩

theorem Inside.collectBytes {count : UInt32} {bytes : Bytes} (standing : Standing arguments)
    (inside : Inside file blockSize arguments)
    (collected : collectBytes arguments count = some (bytes, next)) :
    Inside file blockSize next ∧ next.place = arguments.place + count.toNat := by
  have sizes : UInt16.size = 65536 ∧ UInt32.size = 4294967296 := ⟨rfl, rfl⟩
  have inBlock := standing.inBlock
  have bounded := standing.bounded
  have small := count.toNat_lt
  rw [Read.collectBytes] at collected
  split at collected
  · next within =>
      simp only [Option.bind_eq_bind, Option.bind_eq_some_iff, Option.some.injEq,
        Prod.mk.injEq] at collected
      obtain ⟨copy, copied, -, rfl⟩ := collected
      have room := (copyBlock_length copied).2
      rw [standing.loaded] at room
      refine ⟨⟨inside.file_eq, inside.size_eq, inside.offset_le⟩, ?_⟩
      show arguments.offset + (arguments.position + count.toNat) % UInt16.size =
        arguments.offset + arguments.position + count.toNat
      rw [Nat.mod_eq_of_lt (by omega), Nat.add_assoc]
  · next beyond =>
      have available : (arguments.blockSize - arguments.position) % UInt16.size =
          arguments.blockSize - arguments.position := Nat.mod_eq_of_lt (by omega)
      have reaches : arguments.blockSize ≤ arguments.position + count.toNat :=
        Nat.le_trans (Nat.le_of_not_lt beyond) (Nat.mod_le _ _)
      simp only [available, Option.bind_eq_bind, Option.bind_eq_some_iff, Option.some.injEq,
        Prod.mk.injEq] at collected
      obtain ⟨first, -, second, read, ⟨middle, left, third⟩, ran, last, -, -, rfl⟩ := collected
      obtain ⟨secondInside, offset_eq, -⟩ := inside.readBlock read
      obtain ⟨kept, moved⟩ := secondInside.collectBlocks ran
      refine ⟨⟨kept.file_eq, kept.size_eq, kept.offset_le⟩, ?_⟩
      show third.offset + left = arguments.offset + arguments.position + count.toNat
      rw [inside.size_eq] at inBlock reaches moved
      omega

theorem blockSource_tracks (file : Bytes) (blockSize : Nat) :
    blockSource.Tracks (fun state => Inside file blockSize state.val)
      fun state => state.val.place := by
  intro state count bytes next inside collected
  simp only [blockSource] at collected
  split at collected
  · next small =>
      split at collected
      · cases collected
      · next reached served =>
          cases collected
          have moved := inside.collectBytes state.property served
          rw [UInt32.toNat_ofNat_of_lt' small] at moved
          exact moved
  · cases collected

end Places

end TellyDB.Database.Read
