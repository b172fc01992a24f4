import TellyDB.Server.Reader.Steps

/-!
Owns the stability of arguments: from the moment a command is in the queue until
it is executed, the memory its arguments point into stays allocated and holds
the bytes that were parsed, as long as the data of the read buffer does not move
under transactions that wait and no command ends where a full buffer ends.
-/

namespace TellyDB.Server.Reader

open Resp Lib.Transition

/-! ## What has to hold of a step -/

/-- The next bytes of the parser do not fit into the buffer. -/
def State.grows (state : State) (buffer : QueryBuffer) : Bool :=
  match state.activity with
  | .parsing stage =>
      decide (buffer.size < state.size + (stage.request - (state.size - state.position)))
  | _ => false

/-- The data of a buffer that grows moves only if no transaction refers to it. When a command
ends where a full buffer ends, no transaction refers to it and nothing is read into it, because
the read fails. -/
def Steady (state : State) (action : Action) : Prop :=
  match action, state.current with
  | .take moved, some buffer =>
      moved = true → state.grows buffer = true → buffer.refcount = 1
  | .checkEnd, some buffer =>
      state.size = state.position → state.size = buffer.size → buffer.refcount = 1 ∧
        (readSegments state.socket buffer.size).bytes = [] ∧
        (readSegments state.socket buffer.size).succeeded = false
  | _, _ => True

/-- `Steady`, computed. -/
def State.steady (state : State) (action : Action) : Bool :=
  match action, state.current with
  | .take moved, some buffer =>
      decide (moved = true → state.grows buffer = true → buffer.refcount = 1)
  | .checkEnd, some buffer =>
      decide (state.size = state.position → state.size = buffer.size → buffer.refcount = 1 ∧
        (readSegments state.socket buffer.size).bytes = [] ∧
        (readSegments state.socket buffer.size).succeeded = false)
  | _, _ => true

theorem steady_iff (state : State) (action : Action) :
    state.steady action = true ↔ Steady state action := by
  unfold State.steady Steady
  split
  · exact decide_eq_true_iff
  · exact decide_eq_true_iff
  · exact iff_of_true rfl trivial

instance (state : State) (action : Action) : Decidable (Steady state action) :=
  decidable_of_iff _ (steady_iff state action)

/-! ## Arguments that wait -/

/-- The arguments lie in a block, and read as `bytes`. -/
structure Holds (state : State) (block : Nat) (args : List Pointer) (bytes : List Bytes) :
    Prop where
  block : ∀ pointer ∈ args, pointer.block = block
  read : args.mapM state.read = some bytes

/-- Every transaction that waits has its buffer, and the bytes that were parsed. -/
def PendingHolds (state : State) : Prop :=
  ∀ queued ∈ state.pending, ∃ buffer, state.buffers queued.readBuf = some buffer ∧
    Holds state buffer.data queued.args queued.parsed

/-- The arguments end in front of `high`. -/
def EndBefore (high : Nat) (args : List Pointer) : Prop :=
  ∀ pointer ∈ args, pointer.range.offset + pointer.range.length ≤ high

/-- The transactions that wait use the buffer of the client in front of `low` only. -/
def Below (state : State) (low : Nat) : Prop :=
  ∀ queued ∈ state.pending, queued.readBuf = state.readBuf → EndBefore low queued.args

/-- No transaction that waits uses the buffer of the client. -/
def Alone (state : State) : Prop :=
  ∀ queued ∈ state.pending, queued.readBuf ≠ state.readBuf

section Rules

variable {config : Config} {state next : State}

theorem Alone.below {low : Nat} (alone : Alone state) : Below state low :=
  fun queued member own => absurd own (alone queued member)

theorem mapM_read_congr {args : List Pointer}
    (same : ∀ pointer ∈ args, next.read pointer = state.read pointer) :
    args.mapM next.read = args.mapM state.read := by
  induction args with
  | nil => rfl
  | cons pointer rest inductionHypothesis =>
      rw [List.mapM_cons, List.mapM_cons, same pointer (List.mem_cons_self ..),
        inductionHypothesis fun other member => same other (List.mem_cons_of_mem _ member)]

theorem Holds.congr {block : Nat} {args : List Pointer} {bytes : List Bytes}
    (holds : Holds state block args bytes)
    (same : ∀ pointer ∈ args, next.read pointer = state.read pointer) :
    Holds next block args bytes where
  block := holds.block
  read := (mapM_read_congr same).trans holds.read

/-- What a step leaves of the buffers and blocks of the transactions that still wait. -/
theorem PendingHolds.frame (holds : PendingHolds state)
    (pending : ∀ queued ∈ next.pending, queued ∈ state.pending)
    (buffers : ∀ queued ∈ next.pending, ∀ buffer, state.buffers queued.readBuf = some buffer →
      ∃ after, next.buffers queued.readBuf = some after ∧ after.data = buffer.data)
    (reads : ∀ queued ∈ next.pending, ∀ buffer, state.buffers queued.readBuf = some buffer →
      ∀ pointer ∈ queued.args, pointer.block = buffer.data →
        next.read pointer = state.read pointer) : PendingHolds next := by
  intro queued member
  obtain ⟨buffer, found, kept⟩ := holds queued (pending queued member)
  obtain ⟨after, afterFound, data⟩ := buffers queued member buffer found
  refine ⟨after, afterFound, ?_⟩
  rw [data]
  exact kept.congr fun pointer argument =>
    reads queued member buffer found pointer argument (kept.block pointer argument)

/-- Only the blocks, the buffers and the transactions that wait matter. -/
theorem PendingHolds.of_eq (holds : PendingHolds state) (pending : next.pending = state.pending)
    (buffers : next.buffers = state.buffers) (blocks : next.blocks = state.blocks) :
    PendingHolds next := by
  refine holds.frame (fun queued member => pending ▸ member) (fun _ _ buffer found => ?_) ?_
  · exact ⟨buffer, buffers ▸ found, rfl⟩
  · intro _ _ _ _ pointer _ _
    rw [State.read, State.read, blocks]

theorem read_setBlock_of_ne {block : Nat} {content : Option (Nat → UInt8)} {pointer : Pointer}
    (others : pointer.block ≠ block) :
    (state.setBlock block content).read pointer = state.read pointer := by
  rw [State.read, State.read, blocks_setBlock, if_neg others]

/-- Writing behind a pointer does not change what it points to. -/
theorem read_write {block offset : Nat} {content : Nat → UInt8} {bytes : Bytes}
    {pointer : Pointer} (allocated : state.blocks block = some content)
    (before : pointer.block = block → pointer.range.offset + pointer.range.length ≤ offset) :
    (state.setBlock block (some (writeBytes content offset bytes))).read pointer =
      state.read pointer := by
  by_cases same : pointer.block = block
  · rw [State.read, State.read, blocks_setBlock, if_pos same, same, allocated, Option.map_some,
      Option.map_some, readRange_before (before same)]
  · exact read_setBlock_of_ne same

/-- Bytes that go into the buffer of the client behind everything that waits there. -/
theorem PendingHolds.write {low offset : Nat} {buffer : QueryBuffer} {content : Nat → UInt8}
    {bytes : Bytes} (holds : PendingHolds state) (counted : Counted state)
    (below : Below state low) (current : state.current = some buffer)
    (allocated : state.blocks buffer.data = some content) (behind : low ≤ offset) :
    PendingHolds (state.setBlock buffer.data (some (writeBytes content offset bytes))) := by
  refine holds.frame (fun _ member => member) (fun _ _ buffer found => ⟨buffer, found, rfl⟩) ?_
  intro queued member other found pointer argument inside
  apply read_write allocated
  intro same
  have own : queued.readBuf = state.readBuf :=
    counted.distinct queued.readBuf state.readBuf other buffer found current
      (inside.symm.trans same)
  exact Nat.le_trans (below queued member own pointer argument) behind

/-- A reader that is the only one to refer to its buffer. -/
theorem Counted.alone {buffer : QueryBuffer} (counted : Counted state)
    (connected : state.connected = true) (current : state.current = some buffer)
    (single : buffer.refcount ≤ 1) : Alone state := by
  have count := counted.refcount state.readBuf buffer current
  rw [State.references, if_pos ⟨connected, rfl⟩] at count
  have none : state.pending.countP (fun transaction => transaction.readBuf = state.readBuf) = 0 := by
    omega
  intro queued member own
  exact List.countP_eq_zero.mp none queued member (decide_eq_true own)

/-- A buffer that changes, but not its data. -/
theorem setBuffer_data {address other : Nat} {buffer after before : QueryBuffer}
    (found : state.buffers address = some buffer) (data : after.data = buffer.data)
    (otherFound : state.buffers other = some before) :
    ∃ written, (state.setBuffer address (some after)).buffers other = some written ∧
      written.data = before.data := by
  rw [buffers_setBuffer]
  split
  · rename_i same
    rw [same, found] at otherFound
    cases otherFound
    exact ⟨after, rfl, data⟩
  · exact ⟨before, otherFound, rfl⟩

/-- The transactions that wait keep their buffer when the client gets another one. -/
theorem refreshBuffer_holds (holds : PendingHolds state) (counted : Counted state)
    (connected : state.connected = true)
    (refreshed : refreshBuffer config state = some next) : PendingHolds next ∧ Alone next := by
  obtain ⟨buffer, current, ⟨single, rfl⟩ | ⟨shared, rfl⟩⟩ := refreshBuffer_eq refreshed
  · exact ⟨holds, counted.alone connected current single⟩
  · obtain ⟨freshBlock, freshBuffer⟩ := counted.fresh state.nextAddress (Nat.le_refl _)
    have old : ∀ queued ∈ state.pending, queued.readBuf ≠ state.nextAddress := by
      intro queued member same
      obtain ⟨other, found, _⟩ := holds queued member
      rw [same, freshBuffer] at found
      cases found
    refine ⟨holds.frame (fun _ member => member) ?_ ?_, old⟩
    · intro queued member other found
      have left : { buffer with refcount := buffer.refcount - 1 }.data = buffer.data := rfl
      obtain ⟨written, stored, data⟩ := setBuffer_data current left found
      refine ⟨written, ?_, data⟩
      change ((state.setBuffer state.readBuf _).setBuffer state.nextAddress _).buffers _ = _
      rw [buffers_setBuffer, if_neg (old queued member)]
      exact stored
    · intro queued member other found pointer argument inside
      change ((state.setBuffer state.readBuf _).setBlock state.nextAddress _).read pointer = _
      apply read_setBlock_of_ne
      intro same
      apply counted.data queued.readBuf other found
      rw [← inside, same]
      exact freshBlock

end Rules

/-! ## The invariant -/

/-- What the I/O thread holds: the ranges of a parser lie behind everything that waits, and so
do the arguments of a command until the buffer is left. -/
def Active (state : State) (block : Nat) : Activity → Prop
  | .idle => True
  | .parsing stage =>
      ∃ low ≤ state.position, Below state low ∧ Within low state.position stage.ranges
  | .parsed command =>
      Holds state block command.args command.data.2 ∧
        Below state state.position ∧ EndBefore state.position command.args
  | .ready command more =>
      Holds state block command.args command.data.2 ∧
        (more = true → Below state state.position ∧ EndBefore state.position command.args)

section Steps

variable {config : Config} {state next : State}

/-- Bytes go into the buffer of the client. -/
theorem readFromSocket_holds {offset nbytes low : Nat} {count : Option Nat}
    (holds : PendingHolds state) (counted : Counted state) (below : Below state low)
    (behind : low ≤ offset) (read : readFromSocket state offset nbytes = some (next, count)) :
    PendingHolds next := by
  obtain ⟨buffer, content, current, allocated, rfl, _⟩ := readFromSocket_eq read
  exact (holds.write counted below current allocated behind).of_eq rfl rfl rfl

theorem Refills.holds {read : State} {count : Option Nat}
    (refills : Refills config state read count) (holds : PendingHolds state)
    (counted : Counted state) (connected : state.connected = true) :
    PendingHolds read ∧ Alone read := by
  obtain ⟨fresh, alone⟩ := refreshBuffer_holds holds counted connected refills.refreshed
  have framed := readFromSocket_framed refills.filled
  have below : Below refills.fresh 0 := alone.below
  refine ⟨readFromSocket_holds fresh
    (refreshBuffer_counted counted connected refills.refreshed) below (Nat.le_refl _)
    refills.filled, ?_⟩
  intro queued member
  rw [framed.readBuf]
  rw [framed.pending] at member
  exact alone queued member

/-- The pointers of a command read as its bytes. -/
theorem mapM_read_pointers {block : Nat} {content : Nat → UInt8} (args : List Range)
    (allocated : state.blocks block = some content) :
    (args.map fun argument => (⟨block, argument⟩ : Pointer)).mapM state.read =
      some (args.map (readRange content)) := by
  induction args with
  | nil => rfl
  | cons argument rest inductionHypothesis =>
      rw [List.map_cons, List.mapM_cons, inductionHypothesis, State.read, allocated]
      rfl

/-- What the I/O thread holds depends on its own part of the state, and on its buffer. -/
theorem Active.congr {block : Nat} {activity : Activity} (active : Active state block activity)
    (pending : ∀ queued ∈ next.pending, queued ∈ state.pending)
    (readBuf : next.readBuf = state.readBuf) (position : next.position = state.position)
    (reads : ∀ pointer : Pointer, pointer.block = block →
      next.read pointer = state.read pointer) : Active next block activity := by
  have below : ∀ low, Below state low → Below next low := by
    intro low below queued member own
    rw [readBuf] at own
    exact below queued (pending queued member) own
  have holds : ∀ args bytes, Holds state block args bytes → Holds next block args bytes :=
    fun args bytes holds =>
      holds.congr fun pointer member => reads pointer (holds.block pointer member)
  cases activity with
  | idle => trivial
  | parsing stage =>
      obtain ⟨low, start, before, within⟩ := active
      rw [← position] at start within
      exact ⟨low, start, below low before, within⟩
  | parsed command =>
      obtain ⟨args, before, ends⟩ := active
      rw [← position] at before ends
      exact ⟨holds _ _ args, below _ before, ends⟩
  | ready command more =>
      obtain ⟨args, before⟩ := active
      rw [← position] at before
      exact ⟨holds _ _ args, fun goesOn => ⟨below _ (before goesOn).1, (before goesOn).2⟩⟩

end Steps

/-! ## Arguments on fixed input -/

def sampleConfig : Config where
  known name := name == text "ECHO"
  garbage _ _ := 0

end TellyDB.Server.Reader
