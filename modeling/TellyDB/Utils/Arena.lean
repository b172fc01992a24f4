import TellyDB.Lib.Regions
import TellyDB.Lib.Transition
import TellyDB.Utils.ThreadQueue

/-!
Owns the arenas of `utils/arena.c`: blocks of one size, each filled from its start, where a
request that does not fit opens the next block.

What `malloc` returns for a block is an input. Sizes, indexes and addresses are the 64-bit words
of the source.
-/

namespace TellyDB.Utils

open Lib Lib.Transition

/-! ## The functions -/

/-- `ArenaBlock`. -/
structure ArenaBlock where
  region : Word
  index : Word
  size : Word
deriving DecidableEq

/-- `Arena`: `current` and the blocks before it in the chain, the latest first. -/
structure Arena where
  current : ArenaBlock
  former : List ArenaBlock
deriving DecidableEq

/-- `arena_block_create`, with what `malloc` returns for the region. -/
def arenaBlockCreate (size : Word) (malloc : Option Word) : Option ArenaBlock :=
  malloc.map fun region => ⟨region, 0, size⟩

/-- `arena_create`. -/
def arenaCreate (size : Word) (malloc : Option Word) : Option Arena :=
  (arenaBlockCreate size malloc).map fun block => ⟨block, []⟩

/-- What the next address of a block lies behind an aligned one. -/
def ArenaBlock.offset (block : ArenaBlock) (alignment : Word) : Word :=
  (block.region + block.index) % alignment

/-- The block with its index aligned. -/
def ArenaBlock.align (block : ArenaBlock) (alignment : Word) : ArenaBlock :=
  if 0 < block.offset alignment then
    { block with index := block.index - block.offset alignment + alignment }
  else block

/-- The end of `arena_alloc_aligned` on the block that the request is taken from. -/
def ArenaBlock.take (block : ArenaBlock) (size : Word) : ArenaBlock × Word :=
  let block := { block with index := block.index + size }
  (block, block.region + (block.index - size))

/-- `arena_alloc_aligned`, with what `malloc` returns if a block is needed. The test adds the
offset to the index that is aligned already. -/
def arenaAllocAligned (arena : Arena) (size alignment : Word) (malloc : Option Word) :
    Arena × Option Word :=
  let offset := arena.current.offset alignment
  let block := arena.current.align alignment
  if block.size < size + (block.index + offset) then
    match arenaBlockCreate block.size malloc with
    | none => ({ arena with current := block }, none)
    | some nblock =>
        let (nblock, address) := nblock.take size
        (⟨nblock, block :: arena.former⟩, some address)
  else
    let (block, address) := block.take size
    ({ arena with current := block }, some address)

/-- `ARENA_DEFAULT_ALIGNMENT`. -/
def arenaDefaultAlignment : Word := 8

/-- `arena_alloc`. -/
def arenaAlloc (arena : Arena) (size : Word) (malloc : Option Word) : Arena × Option Word :=
  arenaAllocAligned arena size arenaDefaultAlignment malloc

/-! ## Requests -/

/-- One call of `arena_alloc`. -/
structure ArenaRequest where
  size : Word
  malloc : Option Word

/-- An arena with the regions it returned, the latest first. -/
structure ArenaState where
  arena : Arena
  returned : List Region

/-- `arena_alloc` for a caller that keeps what it gets. -/
def serveRequest (state : ArenaState) (request : ArenaRequest) : Option ArenaState :=
  let (arena, address) := arenaAlloc state.arena request.size request.malloc
  some ⟨arena, (address.map fun address => ⟨address.toNat, request.size.toNat⟩).toList ++
    state.returned⟩

/-- The region of a block. -/
def ArenaBlock.extent (block : ArenaBlock) : Region := ⟨block.region.toNat, block.size.toNat⟩

/-- The blocks of an arena. -/
def Arena.blocks (arena : Arena) : List ArenaBlock := arena.current :: arena.former

/-- What `malloc` promises of a region: it is aligned for every type, lies in the lower half of the
addresses as all memory of a process, and apart from the regions that are in use. -/
structure Supplies (size region : Word) (others : List ArenaBlock) : Prop where
  nonnull : region ≠ 0
  aligned : region.toNat % 8 = 0
  lower : region.toNat + size.toNat ≤ 2 ^ 63
  apart : ∀ block ∈ others, Region.Apart ⟨region.toNat, size.toNat⟩ block.extent

/-- The test of `arena_alloc_aligned` that opens the next block. -/
def ArenaBlock.Lacks (block : ArenaBlock) (size : Word) : Prop :=
  block.size < size + ((block.align 8).index + block.offset 8)

instance (block : ArenaBlock) (size : Word) : Decidable (block.Lacks size) :=
  inferInstanceAs (Decidable (_ < _))

/-- The request is for at most a block, or it fails: it needs a block that `malloc` refuses. -/
def Moderate (size : Word) (state : ArenaState) (request : ArenaRequest) : Prop :=
  request.size ≤ size ∨ (state.arena.current.Lacks request.size ∧ request.malloc = none)

instance (size : Word) (state : ArenaState) (request : ArenaRequest) :
    Decidable (Moderate size state request) := inferInstanceAs (Decidable (_ ∨ _))

/-- `malloc` keeps its promise if the request needs a block. -/
def Supplied (state : ArenaState) (request : ArenaRequest) : Prop :=
  ∀ region, request.malloc = some region →
    Supplies state.arena.current.size region state.arena.blocks

/-- Every region that was returned lies inside a block, aligned behind its start, and shares no
byte with another one. -/
structure Allocated (state : ArenaState) : Prop where
  inside : ∀ region ∈ state.returned, ∃ block ∈ state.arena.blocks,
    region.Within block.extent ∧ (region.start - block.region.toNat) % 8 = 0
  apart : state.returned.Pairwise Region.Apart

/-! ## What a call does -/

section Calls

variable {block : ArenaBlock} {state next : ArenaState} {request : ArenaRequest} {size : Word}

@[simp] theorem align_size (alignment : Word) : (block.align alignment).size = block.size := by
  unfold ArenaBlock.align
  split <;> rfl

@[simp] theorem align_region (alignment : Word) :
    (block.align alignment).region = block.region := by
  unfold ArenaBlock.align
  split <;> rfl

@[simp] theorem align_extent (alignment : Word) :
    (block.align alignment).extent = block.extent := by
  simp only [ArenaBlock.extent, align_size, align_region]

/-- The block with `size` bytes behind its index taken. -/
def ArenaBlock.charge (block : ArenaBlock) (size : Word) : ArenaBlock :=
  { block with index := block.index + size }

@[simp] theorem charge_extent : (block.charge size).extent = block.extent := rfl

theorem take_eq : block.take size = (block.charge size, block.region + block.index) := by
  simp only [ArenaBlock.take, ArenaBlock.charge, BitVec.add_sub_cancel]

/-- A call fails, opens a block and takes its start, or takes what is next in the current one. -/
theorem serveRequest_cases (served : serveRequest state request = some next) :
    (state.arena.current.Lacks request.size ∧ request.malloc = none ∧
      next = ⟨{ state.arena with current := state.arena.current.align 8 }, state.returned⟩) ∨
    (∃ region, request.malloc = some region ∧
      next = ⟨⟨(⟨region, 0, state.arena.current.size⟩ : ArenaBlock).charge request.size,
          state.arena.current.align 8 :: state.arena.former⟩,
        ⟨region.toNat, request.size.toNat⟩ :: state.returned⟩) ∨
    (¬state.arena.current.Lacks request.size ∧
      next = ⟨{ state.arena with
          current := (state.arena.current.align 8).charge request.size },
        ⟨(state.arena.current.region + (state.arena.current.align 8).index).toNat,
          request.size.toNat⟩ :: state.returned⟩) := by
  unfold ArenaBlock.Lacks
  by_cases lacking : state.arena.current.size <
      request.size + ((state.arena.current.align 8).index + state.arena.current.offset 8)
  · rw [serveRequest, arenaAlloc, arenaAllocAligned, arenaDefaultAlignment, align_size,
      if_pos lacking] at served
    cases supplied : request.malloc with
    | none =>
        left
        refine ⟨lacking, rfl, ?_⟩
        simp only [arenaBlockCreate, supplied, Option.map_none, Option.toList_none,
          List.nil_append, Option.some.injEq] at served
        exact served.symm
    | some region =>
        right; left
        refine ⟨region, rfl, ?_⟩
        have start : region + (0 : Word) = region := BitVec.add_zero region
        simp only [arenaBlockCreate, supplied, Option.map_some, take_eq, Option.toList_some,
          start, Option.some.injEq] at served
        exact served.symm
  · right; right
    refine ⟨lacking, ?_⟩
    rw [serveRequest, arenaAlloc, arenaAllocAligned, arenaDefaultAlignment, align_size,
      if_neg lacking] at served
    simp only [take_eq, align_region, Option.map_some, Option.toList_some,
      Option.some.injEq] at served
    exact served.symm

/-- Every block has the size that the arena was created with. -/
theorem serveRequest_sizes (sizes : ∀ block ∈ state.arena.blocks, block.size = size)
    (served : serveRequest state request = some next) :
    ∀ block ∈ next.arena.blocks, block.size = size := by
  simp only [Arena.blocks, List.mem_cons, forall_eq_or_imp] at sizes ⊢
  obtain ⟨-, -, rfl⟩ | ⟨region, -, rfl⟩ | ⟨-, rfl⟩ := serveRequest_cases served
  · simpa using sizes
  · simpa [ArenaBlock.charge] using sizes
  · simpa [ArenaBlock.charge] using sizes

end Calls

/-! ## Runs -/

section Runs

variable {block : ArenaBlock} {state next : ArenaState} {request : ArenaRequest} {size : Word}

/-- What `malloc` promised of a block. -/
structure ArenaBlock.Placed (block : ArenaBlock) (size : Word) : Prop where
  sized : block.size = size
  nonnull : 8 ≤ block.region.toNat
  aligned : block.region.toNat % 8 = 0
  lower : block.region.toNat + size.toNat ≤ 2 ^ 63

/-- A returned region lies inside a block, aligned behind its start. -/
def ArenaBlock.Fits (block : ArenaBlock) (returned : Region) : Prop :=
  returned.Within block.extent ∧ (returned.start - block.region.toNat) % 8 = 0

/-- What `arena_alloc` keeps while no region is larger than a block: the index of the current
block is at most its size, rounded up, and nothing returned from the block lies behind it. -/
structure Filled (size : Word) (state : ArenaState) : Prop where
  placed : ∀ block ∈ state.arena.blocks, block.Placed size
  distinct : state.arena.blocks.Pairwise fun one other => one.extent.Apart other.extent
  index : state.arena.current.index.toNat ≤ (size.toNat + 7) / 8 * 8
  held : ∀ returned ∈ state.returned,
    (∃ block ∈ state.arena.former, block.Fits returned) ∨
    (state.arena.current.Fits returned ∧
      returned.start + returned.size ≤
        state.arena.current.region.toNat + state.arena.current.index.toNat)
  apart : state.returned.Pairwise Region.Apart

theorem Filled.allocated (filled : Filled size state) : Allocated state where
  inside returned member := by
    rcases filled.held returned member with ⟨block, former, fits⟩ | ⟨fits, -⟩
    · exact ⟨block, List.mem_cons_of_mem _ former, fits⟩
    · exact ⟨state.arena.current, List.mem_cons_self, fits⟩
  apart := filled.apart

/-- The aligned index of a block is the next multiple of eight. -/
theorem align_index (placed : block.Placed size)
    (index : block.index.toNat ≤ (size.toNat + 7) / 8 * 8) :
    (block.align 8).index.toNat = (block.index.toNat + 7) / 8 * 8 ∧
      (block.offset 8).toNat = block.index.toNat % 8 := by
  obtain ⟨-, nonnull, aligned, lower⟩ := placed
  have eight : (8 : Word).toNat = 8 := rfl
  have exact : block.region.toNat + block.index.toNat < 2 ^ 64 := by omega
  have offset : (block.offset 8).toNat = block.index.toNat % 8 := by
    rw [ArenaBlock.offset, BitVec.toNat_umod, BitVec.toNat_add, Nat.mod_eq_of_lt exact, eight]
    omega
  refine ⟨?_, offset⟩
  unfold ArenaBlock.align
  split
  case isTrue behind =>
    rw [BitVec.lt_def, offset] at behind
    have positive : 0 < block.index.toNat % 8 := behind
    simp only [BitVec.toNat_add, BitVec.toNat_sub, offset, eight]
    omega
  case isFalse straight =>
    rw [BitVec.lt_def, offset] at straight
    have zero : ¬0 < block.index.toNat % 8 := straight
    omega

/-- The current block with its index aligned. -/
theorem Filled.realigned (filled : Filled size state) :
    Filled size ⟨{ state.arena with current := state.arena.current.align 8 }, state.returned⟩ := by
  obtain ⟨placed, distinct, index, held, apart⟩ := filled
  have current := placed state.arena.current List.mem_cons_self
  obtain ⟨rounded, -⟩ := align_index current index
  simp only [Arena.blocks, List.mem_cons, forall_eq_or_imp, List.pairwise_cons] at placed distinct
  constructor
  case placed =>
    simp only [Arena.blocks, List.mem_cons, forall_eq_or_imp]
    refine ⟨?_, placed.2⟩
    constructor
    · simpa using current.sized
    · simpa using current.nonnull
    · simpa using current.aligned
    · simpa using current.lower
  case distinct => simpa [Arena.blocks] using distinct
  case index =>
    show (state.arena.current.align 8).index.toNat ≤ _
    omega
  case held =>
    intro returned member
    rcases held returned member with former | ⟨fits, before⟩
    · exact .inl former
    · right
      simp only [ArenaBlock.Fits, align_extent, align_region]
      exact ⟨fits, by omega⟩
  case apart => exact apart

/-- A block opened by `malloc` with the first region taken from it. -/
theorem Filled.opened {region taken : Word} (filled : Filled size state) (bound : taken ≤ size)
    (supplies : Supplies size region state.arena.blocks) :
    Filled size ⟨⟨(⟨region, 0, size⟩ : ArenaBlock).charge taken, state.arena.blocks⟩,
      ⟨region.toNat, taken.toNat⟩ :: state.returned⟩ := by
  obtain ⟨placed, distinct, -, held, apart⟩ := filled
  obtain ⟨nonnull, aligned, lower, away⟩ := supplies
  have positive : region.toNat ≠ 0 := fun zero => nonnull (BitVec.eq_of_toNat_eq zero)
  have bounded : taken.toNat ≤ size.toNat := bound
  have index : ((⟨region, 0, size⟩ : ArenaBlock).charge taken).index.toNat = taken.toNat := by
    simp [ArenaBlock.charge]
  have inner : (⟨region.toNat, taken.toNat⟩ : Region).Within ⟨region.toNat, size.toNat⟩ :=
    ⟨Nat.le_refl _, Nat.add_le_add_left bounded _⟩
  have blockOf : ∀ returned ∈ state.returned, ∃ block ∈ state.arena.blocks,
      block.Fits returned := by
    intro returned member
    rcases held returned member with ⟨block, former, fits⟩ | ⟨fits, -⟩
    · exact ⟨block, List.mem_cons_of_mem _ former, fits⟩
    · exact ⟨state.arena.current, List.mem_cons_self, fits⟩
  constructor
  case placed =>
    show ∀ block ∈ _ :: state.arena.blocks, _
    simp only [List.mem_cons, forall_eq_or_imp]
    exact ⟨⟨rfl, show 8 ≤ region.toNat by omega, aligned, lower⟩, placed⟩
  case distinct => exact List.pairwise_cons.mpr ⟨away, distinct⟩
  case index =>
    rw [index]
    omega
  case held =>
    simp only [List.mem_cons, forall_eq_or_imp, index]
    constructor
    · right
      refine ⟨⟨inner, ?_⟩, Nat.le_refl _⟩
      show (region.toNat - region.toNat) % 8 = 0
      omega
    · intro returned member
      exact .inl (blockOf returned member)
  case apart =>
    refine List.pairwise_cons.mpr ⟨?_, apart⟩
    intro returned member
    obtain ⟨block, former, fits⟩ := blockOf returned member
    exact (away block former).within inner fits.1

/-- The current block with a region taken from it. -/
theorem Filled.charged (filled : Filled size state) (taken : Word)
    (aligned : state.arena.current.index.toNat % 8 = 0)
    (room : state.arena.current.index.toNat + taken.toNat ≤ size.toNat) :
    Filled size ⟨{ state.arena with current := state.arena.current.charge taken },
      ⟨(state.arena.current.region + state.arena.current.index).toNat, taken.toNat⟩ ::
        state.returned⟩ := by
  obtain ⟨placed, distinct, -, held, apart⟩ := filled
  have current := placed state.arena.current List.mem_cons_self
  have start : (state.arena.current.region + state.arena.current.index).toNat =
      state.arena.current.region.toNat + state.arena.current.index.toNat := by
    have lower := current.lower
    rw [BitVec.toNat_add, Nat.mod_eq_of_lt (by omega)]
  have index : (state.arena.current.charge taken).index.toNat =
      state.arena.current.index.toNat + taken.toNat := by
    have small := size.isLt
    rw [ArenaBlock.charge, BitVec.toNat_add, Nat.mod_eq_of_lt (by omega)]
  have inner : (⟨state.arena.current.region.toNat + state.arena.current.index.toNat,
      taken.toNat⟩ : Region).Within state.arena.current.extent := by
    simp only [Region.Within, ArenaBlock.extent, current.sized]
    omega
  simp only [Arena.blocks, List.mem_cons, forall_eq_or_imp, List.pairwise_cons] at placed distinct
  constructor
  case placed =>
    simp only [Arena.blocks, List.mem_cons, forall_eq_or_imp]
    exact ⟨⟨current.sized, current.nonnull, current.aligned, current.lower⟩, placed.2⟩
  case distinct => exact List.pairwise_cons.mpr distinct
  case index =>
    rw [index]
    omega
  case held =>
    simp only [List.mem_cons, forall_eq_or_imp, index, start]
    constructor
    · right
      refine ⟨⟨inner, ?_⟩, ?_⟩
      · show (state.arena.current.region.toNat + state.arena.current.index.toNat -
          state.arena.current.region.toNat) % 8 = 0
        omega
      · show _ ≤ state.arena.current.region.toNat + _
        omega
    · intro returned member
      rcases held returned member with former | ⟨fits, before⟩
      · exact .inl former
      · right
        refine ⟨fits, ?_⟩
        show _ ≤ state.arena.current.region.toNat + _
        omega
  case apart =>
    rw [start]
    refine List.pairwise_cons.mpr ⟨?_, apart⟩
    intro returned member
    rcases held returned member with ⟨block, former, fits⟩ | ⟨-, before⟩
    · exact (distinct.1 block former).within inner fits.1
    · exact (Region.apart_of_before before).symm

/-- A request that passes the test fits behind the aligned index. -/
theorem room_of_not_lacks {taken : Word} (placed : block.Placed size)
    (index : block.index.toNat ≤ (size.toNat + 7) / 8 * 8) (bound : taken ≤ size)
    (room : ¬block.Lacks taken) :
    (block.align 8).index.toNat + taken.toNat ≤ size.toNat := by
  obtain ⟨rounded, offset⟩ := align_index placed index
  obtain ⟨sized, nonnull, aligned, lower⟩ := placed
  have bounded : taken.toNat ≤ size.toNat := bound
  -- The sum of the test does not wrap: a block is smaller than half the addresses.
  rw [ArenaBlock.Lacks, BitVec.not_lt, BitVec.le_def, BitVec.toNat_add, BitVec.toNat_add,
    sized, offset, Nat.mod_eq_of_lt (by omega : _ + block.index.toNat % 8 < 2 ^ 64),
    Nat.mod_eq_of_lt (by omega)] at room
  omega

/-- A moderate call keeps the arena filled. -/
theorem Filled.serveRequest (filled : Filled size state) (supplied : Supplied state request)
    (moderate : Moderate size state request)
    (served : Utils.serveRequest state request = some next) : Filled size next := by
  have current := filled.placed state.arena.current List.mem_cons_self
  have realigned := filled.realigned
  obtain ⟨-, -, rfl⟩ | ⟨region, malloc, rfl⟩ | ⟨room, rfl⟩ := serveRequest_cases served
  · exact realigned
  · have supplies := supplied region malloc
    have bound : request.size ≤ size := by
      rcases moderate with bound | ⟨-, refused⟩
      · exact bound
      · simp [malloc] at refused
    rw [current.sized] at supplies ⊢
    refine realigned.opened bound ⟨supplies.nonnull, supplies.aligned, supplies.lower, ?_⟩
    have apart := supplies.apart
    simp only [Arena.blocks, List.mem_cons, forall_eq_or_imp] at apart ⊢
    simpa using apart
  · have bound : request.size ≤ size := by
      rcases moderate with bound | ⟨lacking, -⟩
      · exact bound
      · exact absurd lacking room
    obtain ⟨rounded, -⟩ := align_index current filled.index
    have aligned : (state.arena.current.align 8).index.toNat % 8 = 0 := by omega
    have charged := realigned.charged request.size aligned
      (room_of_not_lacks current filled.index bound room)
    simpa using charged

/-- Nothing that was returned is forgotten. -/
theorem returned_of_run {requests : List ArenaRequest} {final : ArenaState}
    (ran : run serveRequest state requests = some final) :
    ∀ returned ∈ state.returned, returned ∈ final.returned := by
  intro returned member
  have kept : ∀ state request next, returned ∈ state.returned →
      serveRequest state request = some next → returned ∈ next.returned := by
    intro state request next member served
    obtain ⟨-, -, rfl⟩ | ⟨region, -, rfl⟩ | ⟨-, rfl⟩ := serveRequest_cases served
    · exact member
    · exact List.mem_cons_of_mem _ member
    · exact List.mem_cons_of_mem _ member
  exact run_invariant kept member ran

/-- A call that is not moderate returns more than a block. -/
theorem returned_of_immoderate (immoderate : ¬Moderate size state request)
    (served : serveRequest state request = some next) :
    ∃ returned ∈ next.returned, size.toNat < returned.size := by
  simp only [Moderate, not_or, BitVec.not_le, BitVec.lt_def] at immoderate
  obtain ⟨larger, succeeds⟩ := immoderate
  obtain ⟨lacking, refused, -⟩ | ⟨region, -, rfl⟩ | ⟨-, rfl⟩ := serveRequest_cases served
  · exact absurd ⟨lacking, refused⟩ succeeds
  · exact ⟨_, List.mem_cons_self, larger⟩
  · exact ⟨_, List.mem_cons_self, larger⟩

/-- A run that returns nothing larger than a block took moderate calls only. -/
theorem moderate_of_returned {requests : List ArenaRequest} {final : ArenaState}
    (ran : run serveRequest state requests = some final)
    (bound : ∀ returned ∈ final.returned, returned.size ≤ size.toNat) :
    Guarded serveRequest (Moderate size) state requests := by
  induction requests generalizing state with
  | nil => trivial
  | cons request rest inductionHypothesis =>
      obtain ⟨next, served, ran⟩ := run_cons_eq_some.mp ran
      constructor
      · by_contra immoderate
        obtain ⟨returned, member, larger⟩ := returned_of_immoderate immoderate served
        have kept := bound returned (returned_of_run ran returned member)
        omega
      · intro other servedOther
        rw [served] at servedOther
        cases servedOther
        exact inductionHypothesis ran

/-- The empty arena is filled. -/
theorem filled_create {malloc : Option Word} {arena : Arena}
    (created : arenaCreate size malloc = some arena)
    (first : ∀ region, malloc = some region → Supplies size region []) :
    Filled size ⟨arena, []⟩ := by
  cases malloc with
  | none => cases created
  | some region =>
      cases created
      obtain ⟨nonnull, aligned, lower, -⟩ := first region rfl
      have positive : region.toNat ≠ 0 := fun zero => nonnull (BitVec.eq_of_toNat_eq zero)
      constructor
      case placed =>
        simp only [Arena.blocks, List.mem_singleton, forall_eq]
        exact ⟨rfl, show 8 ≤ region.toNat by omega, aligned, lower⟩
      case distinct => exact List.pairwise_singleton _ _
      case index => exact Nat.zero_le _
      case held => simp
      case apart => exact List.Pairwise.nil

/-- What `arena_alloc` returns lies inside its block, aligned and apart from all else, exactly
when every call that succeeds asks for at most the size of the arena. -/
theorem arenaAlloc_allocated_iff {malloc : Option Word} {arena : Arena}
    {requests : List ArenaRequest} {final : ArenaState}
    (created : arenaCreate size malloc = some arena)
    (first : ∀ region, malloc = some region → Supplies size region [])
    (supplied : Guarded serveRequest Supplied ⟨arena, []⟩ requests)
    (ran : run serveRequest ⟨arena, []⟩ requests = some final) :
    Allocated final ↔ Guarded serveRequest (Moderate size) ⟨arena, []⟩ requests := by
  have filled := filled_create created first
  constructor
  · intro allocated
    have sizes : ∀ block ∈ final.arena.blocks, block.size = size :=
      run_invariant (fun _ _ _ sizes served => serveRequest_sizes sizes served)
        (fun block member => (filled.placed block member).sized) ran
    apply moderate_of_returned ran
    intro returned member
    obtain ⟨block, among, within, -⟩ := allocated.inside returned member
    rw [← sizes block among]
    exact within.size_le
  · intro moderate
    have guarded := guarded_and supplied moderate
    have kept : Filled size final := guarded_run_invariant
      (fun _ _ _ filled guard served => filled.serveRequest guard.1 guard.2 served)
      filled guarded ran
    exact kept.allocated

/-- What `malloc` promised of the region that it returned. -/
theorem supplies_of_some {region : Word} {others : List ArenaBlock}
    (supplies : Supplies size region others) :
    ∀ returned, some region = some returned → Supplies size returned others := by
  intro returned same
  cases same
  exact supplies

/-- The second of two requests does not fit behind the first one. -/
theorem arenaAlloc_allocated_iff_second_block :
    Allocated ⟨⟨⟨0x2000, 60, 64⟩, [⟨0x1000, 8, 64⟩]⟩, [⟨0x2000, 60⟩, ⟨0x1000, 5⟩]⟩ := by
  have apart : Region.Apart ⟨0x2000, 64⟩ ⟨0x1000, 64⟩ :=
    (Region.apart_of_before (by decide)).symm
  have first : Supplies 64 0x1000 [] := ⟨by decide, by decide, by decide, by simp⟩
  have second : Supplies 64 0x2000 [⟨0x1000, 5, 64⟩] :=
    ⟨by decide, by decide, by decide, fun block member => by
      rw [List.mem_singleton.mp member]
      exact apart⟩
  have created : arenaCreate 64 (some 0x1000) = some ⟨⟨0x1000, 0, 64⟩, []⟩ := rfl
  have supplied : Guarded serveRequest Supplied ⟨⟨⟨0x1000, 0, 64⟩, []⟩, []⟩
      [⟨5, none⟩, ⟨60, some 0x2000⟩] := by
    constructor
    · intro region absent
      cases absent
    · intro next served
      cases served
      exact ⟨supplies_of_some second, fun _ _ => trivial⟩
  exact (arenaAlloc_allocated_iff created (supplies_of_some first) supplied rfl).mpr (by decide)

/-- With fewer than four clients the arena has no size, and a writing buffer lies outside. -/
theorem arenaAlloc_outside :
    arenaCreate 0 (some 0x1000) = some ⟨⟨0x1000, 0, 0⟩, []⟩ ∧
      Supplies 0 0x1000 [] ∧
      Guarded serveRequest Supplied ⟨⟨⟨0x1000, 0, 0⟩, []⟩, []⟩ [⟨262144, some 0x2000⟩] ∧
      run serveRequest ⟨⟨⟨0x1000, 0, 0⟩, []⟩, []⟩ [⟨262144, some 0x2000⟩] =
        some ⟨⟨⟨0x2000, 262144, 0⟩, [⟨0x1000, 0, 0⟩]⟩, [⟨0x2000, 262144⟩]⟩ ∧
      ¬Allocated ⟨⟨⟨0x2000, 262144, 0⟩, [⟨0x1000, 0, 0⟩]⟩, [⟨0x2000, 262144⟩]⟩ := by
  have second : Supplies 0 0x2000 [⟨0x1000, 0, 0⟩] :=
    ⟨by decide, by decide, by decide, fun block member => by
      rw [List.mem_singleton.mp member]
      exact (Region.apart_of_before (by decide)).symm⟩
  refine ⟨rfl, ⟨by decide, by decide, by decide, by simp⟩,
    ⟨supplies_of_some second, fun _ _ => trivial⟩, rfl, ?_⟩
  intro allocated
  obtain ⟨block, member, within, -⟩ := allocated.inside _ List.mem_cons_self
  have empty : block.size = 0 := by
    rcases List.mem_pair.mp member with rfl | rfl
    · rfl
    · rfl
  have larger : 262144 ≤ (0 : Word).toNat := by
    rw [← empty]
    exact within.size_le
  exact absurd larger (by decide)

end Runs

end TellyDB.Utils
