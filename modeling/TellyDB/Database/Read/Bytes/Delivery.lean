import TellyDB.Database.Read.Bytes
import Mathlib.Data.Nat.Basic

/-!
Owns what the block reader delivers: the consecutive bytes of the file, exactly as long as the
position after the last request is in the first block or in one that is completely in the file.
-/

namespace TellyDB.Database.Read

open Resp Lib.Slices

/-! ## What has to hold -/

/-- No request overflows the 32-bit sum it is compared with. -/
def Fits (blockSize : Nat) : Nat → List UInt32 → Prop
  | _, [] => True
  | position, count :: rest =>
      position % blockSize + count.toNat < UInt32.size ∧
        Fits blockSize (position + count.toNat) rest

/-- The block of this position is the first, or completely in the file. -/
def Backed (length blockSize position : Nat) : Prop :=
  position < blockSize ∨ (position / blockSize + 1) * blockSize ≤ length

instance : ∀ blockSize position counts, Decidable (Fits blockSize position counts)
  | _, _, [] => isTrue trivial
  | blockSize, position, count :: rest =>
      have := instDecidableFits blockSize (position + count.toNat) rest
      inferInstanceAs (Decidable (_ ∧ _))

instance (length blockSize position : Nat) : Decidable (Backed length blockSize position) :=
  inferInstanceAs (Decidable (_ ∨ _))

variable {file : Bytes} {blockSize base position : Nat} {arguments : GenericArguments}

theorem Backed.earlier {length earlier : Nat} (backed : Backed length blockSize position)
    (before : earlier ≤ position) : Backed length blockSize earlier := by
  rcases backed with first | full
  · exact Or.inl (Nat.lt_of_le_of_lt before first)
  · right
    have index : earlier / blockSize ≤ position / blockSize := Nat.div_le_div_right before
    exact Nat.le_trans (Nat.mul_le_mul_right _ (Nat.succ_le_succ index)) full

theorem Fits.take {start : Nat} {early counts : List UInt32} (fits : Fits blockSize start counts)
    (isPrefix : early <+: counts) : Fits blockSize start early := by
  induction early generalizing start counts with
  | nil => trivial
  | cons count rest inductionHypothesis =>
      rcases isPrefix with ⟨later, rfl⟩
      exact ⟨fits.1, inductionHypothesis fits.2 ⟨later, rfl⟩⟩

/-! ## Blocks -/

/-- The block at `base` of the file is loaded. -/
structure Loads (file : Bytes) (blockSize base : Nat) (arguments : GenericArguments) : Prop where
  file_eq : arguments.file = file
  size_eq : arguments.blockSize = blockSize
  block_length : arguments.block.length = blockSize
  offset_eq : arguments.offset = min (base + blockSize) file.length
  held : slice file base blockSize <+: arguments.block

/-- What lies in the block and in the file is copied from the block. -/
theorem Loads.copyBlock (loads : Loads file blockSize base arguments) (start count : Nat)
    (inBlock : start + count ≤ blockSize) (inFile : base + start + count ≤ file.length) :
    copyBlock arguments.block start count = some (slice file (base + start) count) := by
  have inPrefix : start + count ≤ (slice file base blockSize).length := by
    rw [slice, List.length_take, List.length_drop]
    omega
  rw [Read.copyBlock, if_pos (by rw [loads.block_length]; exact inBlock),
    slice_of_prefix loads.held inPrefix, slice_slice inBlock]

/-- The next block is loaded when it is completely in the file. -/
theorem Loads.readBlock (loads : Loads file blockSize base arguments)
    (full : base + blockSize + blockSize ≤ file.length) :
    ∃ next, readBlock arguments = some next ∧ Loads file blockSize (base + blockSize) next := by
  have offset : arguments.offset = base + blockSize := by
    rw [loads.offset_eq]
    omega
  have length : (slice file (base + blockSize) blockSize).length = blockSize := length_slice full
  let bytes := slice file (base + blockSize) blockSize
  refine ⟨{ arguments with
    offset := base + blockSize + bytes.length
    block := bytes ++ arguments.block.drop bytes.length },
    ?_, loads.file_eq, loads.size_eq, ?_, ?_, List.prefix_append _ _⟩
  · rw [Read.readBlock, loads.file_eq, loads.size_eq, offset, if_pos length]
  · rw [List.length_append, List.length_drop, length, loads.block_length]
    omega
  · show base + blockSize + bytes.length = _
    rw [length]
    omega

theorem Loads.readBlock_none (loads : Loads file blockSize base arguments)
    (positive : 1 ≤ blockSize) (short : file.length < base + blockSize + blockSize) :
    Read.readBlock arguments = none := by
  rw [Read.readBlock, loads.file_eq, loads.size_eq, loads.offset_eq, if_neg]
  rw [slice, List.length_take, List.length_drop]
  omega

/-- The loop copies whole blocks, as long as the block after them is full. -/
theorem Loads.collectBlocks (loads : Loads file blockSize base arguments)
    (positive : 1 ≤ blockSize) (full : base + blockSize ≤ file.length) {turns remaining : Nat}
    (enough : remaining < turns) {whole : Nat} (whole_eq : whole = remaining / blockSize * blockSize) :
    (base + whole + blockSize ≤ file.length →
        ∃ next, collectBlocks turns arguments remaining =
            some (slice file base whole, remaining % blockSize, next) ∧
          Loads file blockSize (base + whole) next) ∧
      (file.length < base + whole + blockSize →
        collectBlocks turns arguments remaining = none) := by
  induction turns generalizing base arguments remaining whole with
  | zero => exact absurd enough (Nat.not_lt_zero _)
  | succ turns inductionHypothesis =>
      rw [Read.collectBlocks, loads.size_eq]
      by_cases more : blockSize ≤ remaining
      · have rest_eq : whole = blockSize + (remaining - blockSize) / blockSize * blockSize := by
          rw [whole_eq, Nat.div_eq_sub_div positive more, Nat.add_mul, Nat.one_mul, Nat.add_comm]
        obtain ⟨rest, rest_def⟩ :
          ∃ rest, rest = (remaining - blockSize) / blockSize * blockSize := ⟨_, rfl⟩
        rw [← rest_def] at rest_eq
        have copied := loads.copyBlock 0 blockSize (by omega) (by omega)
        rw [Nat.add_zero] at copied
        rw [if_pos more, copied, Nat.mod_eq_sub_mod more]
        by_cases next_full : base + blockSize + blockSize ≤ file.length
        · rcases loads.readBlock next_full with ⟨next, read, nextLoads⟩
          have later := inductionHypothesis nextLoads next_full
            (show remaining - blockSize < turns by omega) rest_def
          simp only [read, nextLoads.size_eq, Option.bind_eq_bind, Option.bind_some]
          constructor
          · intro inFile
            rcases later.1 (by omega) with ⟨final, ran, finalLoads⟩
            refine ⟨final, ?_, ?_⟩
            · rw [ran, rest_eq, ← slice_append]
              rfl
            · rw [rest_eq, ← Nat.add_assoc]
              exact finalLoads
          · intro short
            rw [later.2 (by omega)]
            rfl
        · have stuck := loads.readBlock_none positive (by omega)
          refine ⟨fun inFile => absurd inFile (by omega), fun _ => ?_⟩
          rw [stuck]
          rfl
      · have none_left : whole = 0 := by
          rw [whole_eq, Nat.div_eq_of_lt (by omega), Nat.zero_mul]
        rw [if_neg more, none_left, Nat.mod_eq_of_lt (by omega)]
        exact ⟨fun _ => ⟨arguments, rfl, loads⟩, fun short => absurd short (by omega)⟩

/-! ## Requests -/

/-- The reader stands at a position of the file, in a block that is loaded. -/
structure At (file : Bytes) (blockSize position : Nat) (arguments : GenericArguments) : Prop where
  loads : Loads file blockSize (position / blockSize * blockSize) arguments
  position_eq : arguments.position = position % blockSize

theorem div_mul_add_mod (position blockSize : Nat) :
    position / blockSize * blockSize + position % blockSize = position := by
  rw [Nat.mul_comm]
  exact Nat.div_add_mod _ _

/-- The block of a later position. -/
theorem add_div_block (positive : 1 ≤ blockSize) (position count : Nat) :
    (position + count) / blockSize * blockSize =
      position / blockSize * blockSize +
        (position % blockSize + count) / blockSize * blockSize := by
  conv_lhs => rw [← div_mul_add_mod position blockSize, Nat.add_assoc, Nat.add_comm,
    Nat.add_mul_div_right _ _ positive]
  rw [Nat.add_mul, Nat.add_comm]

/-- A request that stays in the block. -/
theorem At.collectBytes_within (at_ : At file blockSize position arguments)
    (bounded : blockSize < UInt16.size) {count : UInt32}
    (inFile : position + count.toNat ≤ file.length)
    (within : position % blockSize + count.toNat < blockSize) :
    ∃ next, collectBytes arguments count = some (slice file position count.toNat, next) ∧
      At file blockSize (position + count.toNat) next := by
  have split := div_mul_add_mod position blockSize
  have sizes : UInt16.size = 65536 ∧ UInt32.size = 4294967296 := ⟨rfl, rfl⟩
  have copied := at_.loads.copyBlock (position % blockSize) count.toNat
    (Nat.le_of_lt within) (by omega)
  rw [split] at copied
  have sameBlock := add_div_block (Nat.zero_lt_of_lt within) position count.toNat
  rw [Nat.div_eq_of_lt within, Nat.zero_mul, Nat.add_zero] at sameBlock
  refine ⟨{ arguments with position := position % blockSize + count.toNat }, ?_, ?_, ?_⟩
  · rw [collectBytes, at_.position_eq, at_.loads.size_eq, Nat.mod_eq_of_lt (by omega),
      if_pos within, copied, Nat.mod_eq_of_lt (by omega)]
    rfl
  · rw [sameBlock]
    exact ⟨at_.loads.file_eq, at_.loads.size_eq, at_.loads.block_length, at_.loads.offset_eq,
      at_.loads.held⟩
  · show position % blockSize + count.toNat = _
    rw [← Nat.mod_add_mod, Nat.mod_eq_of_lt within]

/-- A request that leaves the block is served as long as the block of the position after it is
completely in the file. -/
theorem At.collectBytes_beyond (at_ : At file blockSize position arguments)
    (positive : 1 ≤ blockSize) (bounded : blockSize < UInt16.size) {count : UInt32}
    (inFile : position + count.toNat ≤ file.length)
    (beyond : blockSize ≤ position % blockSize + count.toNat)
    (fits : position % blockSize + count.toNat < UInt32.size) :
    (((position + count.toNat) / blockSize + 1) * blockSize ≤ file.length →
        ∃ next, collectBytes arguments count = some (slice file position count.toNat, next) ∧
          At file blockSize (position + count.toNat) next) ∧
      (file.length < ((position + count.toNat) / blockSize + 1) * blockSize →
        collectBytes arguments count = none) := by
  have split := div_mul_add_mod position blockSize
  have splitEnd := div_mul_add_mod (position + count.toNat) blockSize
  have inBlock : position % blockSize < blockSize := Nat.mod_lt _ positive
  have endInBlock : (position + count.toNat) % blockSize < blockSize := Nat.mod_lt _ positive
  -- The bytes that are left once the block is used up, and the whole blocks among them.
  have later := add_div_block positive position count.toNat
  rw [Nat.div_eq_sub_div positive beyond, Nat.add_mul _ 1, Nat.one_mul] at later
  have available : (blockSize - position % blockSize) % UInt16.size =
      blockSize - position % blockSize := Nat.mod_eq_of_lt (by omega)
  have left : count.toNat - (blockSize - position % blockSize) =
      position % blockSize + count.toNat - blockSize := by omega
  have left_mod : (position % blockSize + count.toNat - blockSize) % blockSize =
      (position + count.toNat) % blockSize := by
    rw [← Nat.mod_eq_sub_mod beyond, Nat.mod_add_mod]
  rw [Nat.add_mul _ 1, Nat.one_mul]
  generalize baseEq : position / blockSize * blockSize = base at *
  generalize endEq : (position + count.toNat) / blockSize * blockSize = endBase at *
  obtain ⟨whole, whole_def⟩ : ∃ whole, whole =
    (position % blockSize + count.toNat - blockSize) / blockSize * blockSize := ⟨_, rfl⟩
  rw [← whole_def] at later
  have loads : Loads file blockSize base arguments := baseEq ▸ at_.loads
  have notWithin : ¬(position % blockSize + count.toNat) % UInt32.size < blockSize := by
    rw [Nat.mod_eq_of_lt fits]
    omega
  rw [collectBytes, at_.position_eq, loads.size_eq, if_neg notWithin, available]
  dsimp only
  rw [left]
  by_cases full : base + blockSize + blockSize ≤ file.length
  · have first := loads.copyBlock (position % blockSize)
      (blockSize - position % blockSize) (by omega) (by omega)
    rw [split] at first
    rcases loads.readBlock full with ⟨next, read, nextLoads⟩
    have enough : position % blockSize + count.toNat - blockSize < count.toNat + 1 := by omega
    have blocks := nextLoads.collectBlocks positive full enough whole_def
    simp only [first, read, Option.bind_eq_bind, Option.bind_some]
    constructor
    · intro inFileEnd
      rcases blocks.1 (by omega) with ⟨final, ran, finalLoads⟩
      have last := finalLoads.copyBlock 0 ((position + count.toNat) % blockSize)
        (by omega) (by omega)
      refine ⟨{ final with position := (position + count.toNat) % blockSize }, ?_, ?_, rfl⟩
      · rw [ran]
        simp only [Option.bind_some, left_mod, last, Option.some.injEq, Prod.mk.injEq, and_true]
        rw [show base + blockSize = position + (blockSize - position % blockSize) by omega,
          slice_append, Nat.add_zero, Nat.add_assoc position, slice_append]
        congr 1
        omega
      · rw [endEq, show endBase = base + blockSize + whole by omega]
        exact ⟨finalLoads.file_eq, finalLoads.size_eq, finalLoads.block_length,
          finalLoads.offset_eq, finalLoads.held⟩
    · intro short
      rw [blocks.2 (by omega)]
      rfl
  · refine ⟨fun inFileEnd => absurd inFileEnd (by omega), fun _ => ?_⟩
    have stuck := loads.readBlock_none positive (by omega)
    simp only [stuck, Option.bind_eq_bind, Option.bind_none]
    exact Option.bind_fun_none _

/-- A request that overflows the sum copies from behind the block. -/
theorem At.collectBytes_overflow (at_ : At file blockSize position arguments)
    (positive : 1 ≤ blockSize) (bounded : blockSize < UInt16.size) {count : UInt32}
    (overflows : UInt32.size ≤ position % blockSize + count.toNat) :
    collectBytes arguments count = none := by
  have sizes : UInt16.size = 65536 ∧ UInt32.size = 4294967296 := ⟨rfl, rfl⟩
  have inBlock : position % blockSize < blockSize := Nat.mod_lt _ positive
  have small := count.toNat_lt
  have wrapped : (position % blockSize + count.toNat) % UInt32.size < blockSize := by
    rw [Nat.mod_eq_sub_mod overflows, Nat.mod_eq_of_lt (by omega)]
    omega
  rw [collectBytes, at_.position_eq, at_.loads.size_eq, if_pos wrapped, copyBlock, if_neg]
  · rfl
  · rw [at_.loads.block_length]
    omega

/-- One request. -/
theorem At.collectBytes (at_ : At file blockSize position arguments) (positive : 1 ≤ blockSize)
    (bounded : blockSize < UInt16.size) (backed : Backed file.length blockSize position)
    {count : UInt32} (inFile : position + count.toNat ≤ file.length) :
    (position % blockSize + count.toNat < UInt32.size ∧
          Backed file.length blockSize (position + count.toNat) →
        ∃ next, collectBytes arguments count = some (slice file position count.toNat, next) ∧
          At file blockSize (position + count.toNat) next) ∧
      (¬(position % blockSize + count.toNat < UInt32.size ∧
          Backed file.length blockSize (position + count.toNat)) →
        Read.collectBytes arguments count = none) := by
  have split := div_mul_add_mod position blockSize
  by_cases fits : position % blockSize + count.toNat < UInt32.size
  · by_cases within : position % blockSize + count.toNat < blockSize
    · refine ⟨fun _ => at_.collectBytes_within bounded inFile within, fun fails => ?_⟩
      refine absurd ⟨fits, ?_⟩ fails
      have sameBlock := add_div_block positive position count.toNat
      rw [Nat.div_eq_of_lt within, Nat.zero_mul, Nat.add_zero] at sameBlock
      rcases backed with first | full
      · rw [Nat.mod_eq_of_lt first] at within
        exact Or.inl within
      · right
        rw [Nat.add_mul, sameBlock, ← Nat.add_mul]
        exact full
    · have served := at_.collectBytes_beyond positive bounded inFile (Nat.le_of_not_lt within) fits
      have notFirst : ¬position + count.toNat < blockSize := by
        have := Nat.mod_le position blockSize
        omega
      refine ⟨fun holds => served.1 (holds.2.resolve_left notFirst), fun fails => served.2 ?_⟩
      by_contra full
      exact fails ⟨fits, Or.inr (Nat.le_of_not_lt full)⟩
  · exact ⟨fun holds => absurd holds.1 fits,
      fun _ => at_.collectBytes_overflow positive bounded (Nat.le_of_not_lt fits)⟩

/-! ## Successive requests -/

theorem At.collectAll (at_ : At file blockSize position arguments) (positive : 1 ≤ blockSize)
    (bounded : blockSize < UInt16.size) (backed : Backed file.length blockSize position)
    {counts : List UInt32} (inFile : position + total counts ≤ file.length) :
    (Fits blockSize position counts ∧ Backed file.length blockSize (position + total counts) →
        ∃ next, collectAll arguments counts = some (pieces file position counts, next) ∧
          At file blockSize (position + total counts) next) ∧
      (¬(Fits blockSize position counts ∧
          Backed file.length blockSize (position + total counts)) →
        Read.collectAll arguments counts = none) := by
  induction counts generalizing position arguments with
  | nil => exact ⟨fun _ => ⟨arguments, rfl, at_⟩, fun fails => absurd ⟨trivial, backed⟩ fails⟩
  | cons count rest inductionHypothesis =>
      have total_cons : total (count :: rest) = count.toNat + total rest := by
        rw [total, List.map_cons, List.sum_cons]
        rfl
      rw [total_cons, ← Nat.add_assoc] at inFile ⊢
      have one := @At.collectBytes _ _ _ _ at_ positive bounded backed count (by omega)
      by_cases served : position % blockSize + count.toNat < UInt32.size ∧
          Backed file.length blockSize (position + count.toNat)
      · rcases one.1 served with ⟨next, collected, nextAt⟩
        have later := inductionHypothesis nextAt served.2 inFile
        rw [Read.collectAll, collected]
        constructor
        · rintro ⟨⟨-, fits⟩, backedEnd⟩
          rcases later.1 ⟨fits, backedEnd⟩ with ⟨final, ran, finalAt⟩
          refine ⟨final, ?_, finalAt⟩
          simp only [ran, Option.bind_eq_bind, Option.bind_some]
          rfl
        · intro fails
          have stuck := later.2 fun holds => fails ⟨⟨served.1, holds.1⟩, holds.2⟩
          simp only [stuck, Option.bind_eq_bind, Option.bind_some, Option.bind_none]
      · rw [Read.collectAll, one.2 served]
        refine ⟨fun holds => absurd ⟨holds.1.1, holds.2.earlier (by omega)⟩ served, fun _ => rfl⟩

/-- After the first block is loaded. -/
theorem loaded_at {padding : Bytes} {start : Nat} (inBlock : start < blockSize)
    (filled : (slice file 0 blockSize ++ padding).length = blockSize) :
    At file blockSize start (loaded file padding blockSize start) where
  loads := by
    rw [Nat.div_eq_of_lt inBlock, Nat.zero_mul]
    refine ⟨rfl, rfl, filled, ?_, List.prefix_append _ _⟩
    show (slice file 0 blockSize).length = _
    rw [slice, List.length_take, List.drop_zero, Nat.zero_add]
  position_eq := (Nat.mod_eq_of_lt inBlock).symm

/-- The consecutive requests that begin in the first block are served, with the position inside
the block after each of them, exactly as long as none overflows and the block of the position
after the last is the first or completely in the file. -/
theorem collectBytes_delivers {file padding : Bytes} {blockSize start : Nat}
    (positive : 1 ≤ blockSize) (bounded : blockSize ≤ 65535) (inBlock : start < blockSize)
    (filled : (slice file 0 blockSize ++ padding).length = blockSize) {counts : List UInt32}
    (inFile : start + total counts ≤ file.length) :
    (∀ early, early <+: counts → ∃ reached,
        collectAll (loaded file padding blockSize start) early =
          some (pieces file start early, reached) ∧ reached.position < blockSize) ↔
      Fits blockSize start counts ∧ Backed file.length blockSize (start + total counts) := by
  have begins := loaded_at inBlock filled
  have size : blockSize < UInt16.size := Nat.lt_succ_of_le bounded
  constructor
  · intro always
    by_contra fails
    rcases always counts (List.prefix_refl _) with ⟨reached, ran, -⟩
    rw [(begins.collectAll positive size (Or.inl inBlock) inFile).2 fails] at ran
    cases ran
  · rintro ⟨fits, backed⟩ early isPrefix
    have less : total early ≤ total counts := by
      rcases isPrefix with ⟨later, rfl⟩
      rw [total, total, List.map_append, List.sum_append]
      exact Nat.le_add_right _ _
    rcases (begins.collectAll positive size (Or.inl inBlock) (by omega)).1
        ⟨fits.take isPrefix, backed.earlier (by omega)⟩ with ⟨reached, ran, reachedAt⟩
    refine ⟨reached, ran, ?_⟩
    rw [reachedAt.position_eq]
    exact Nat.mod_lt _ positive

/-- Five bytes in blocks of four: what ends in the first block is delivered. -/
theorem collectBytes_delivers_sample : ∃ reached,
    collectAll (loaded [1, 2, 3, 4, 5] [] 4 1) [1, 1] = some ([[2], [3]], reached) ∧
      reached.position < 4 :=
  (collectBytes_delivers (by decide) (by decide) (by decide) rfl (by decide)).mpr
    (by decide) [1, 1] (List.prefix_refl _)

/-- The last byte of the file lies in a block that is not full, and an assertion fails. -/
theorem collectBytes_short_block : collectAll (loaded [1, 2, 3, 4, 5] [] 4 1) [3, 1] = none := by
  decide +kernel

end TellyDB.Database.Read
