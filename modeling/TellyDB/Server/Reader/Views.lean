import TellyDB.Server.Reader.Scanning
import TellyDB.Server.Reader.Stability

/-!
Owns what each step of the reader makes of the bytes that it has: what a scan of them says.
-/

namespace TellyDB.Server.Reader

open Resp

/-- The socket gives these bytes, and nothing more for now. -/
def Gives (socket : List Segment) (rest : Bytes) : Prop :=
  socket = [⟨rest, false⟩] ∨ (socket = [] ∧ rest = [])

/-- A block begins with these bytes. -/
def Lies (content : Nat → UInt8) (held : Bytes) : Prop :=
  readRange content ⟨0, held.length⟩ = held

/-- The client, without TLS, has the bytes of the scan. -/
structure Sees (state : State) (scan : Scan) : Prop where
  counted : Counted state
  connected : state.connected = true
  plain : state.ssl = false
  memory : ∃ buffer content, state.current = some buffer ∧
    state.blocks buffer.data = some content ∧ buffer.size = scan.capacity ∧ Lies content scan.held
  size : state.size = scan.held.length
  position : state.position = scan.position
  ordered : scan.position ≤ scan.held.length
  inside : scan.held.length ≤ scan.capacity
  socket : Gives state.socket scan.rest
  full : scan.rest ≠ [] → scan.held.length = scan.capacity
  alone : scan.shared = false → Alone state

/-! ## Bytes of a block -/

section Blocks

variable {content : Nat → UInt8} {held : Bytes}

theorem Lies.get (lies : Lies content held) {index : Nat} (bound : index < held.length) :
    content index = held[index] := by
  have same := congrArg (·[index]?) lies
  simp only [readRange, List.getElem?_map, List.getElem?_range bound, Option.map_some,
    List.getElem?_eq_getElem bound, Nat.zero_add, Option.some.injEq] at same
  exact same

theorem lies_of_get (same : ∀ (index : Nat) (bound : index < held.length),
    content index = held[index]) : Lies content held := by
  apply List.ext_getElem (readRange_length ..)
  intro index _ bound
  simp [readRange, same index bound]

/-- The bytes of a range. -/
theorem Lies.string (lies : Lies content held) {range : Range}
    (inside : range.offset + range.length ≤ held.length) :
    readRange content range = (held.drop range.offset).take range.length := by
  apply List.ext_getElem
  · rw [readRange_length, List.length_take, List.length_drop]
    omega
  · intro index bound _
    rw [readRange_length] at bound
    rw [List.getElem_take, List.getElem_drop, ← lies.get (by omega)]
    simp [readRange]

/-- Bytes that are added behind. -/
theorem Lies.append (lies : Lies content held) (more : Bytes) :
    Lies (writeBytes content held.length more) (held ++ more) := by
  rw [Lies, List.length_append, readRange_append, readRange_before (by simp), lies, Nat.zero_add,
    readRange_written]

theorem Lies.congr (lies : Lies content held) {other : Nat → UInt8}
    (same : ∀ index < held.length, other index = content index) : Lies other held :=
  lies_of_get fun index bound => (same index bound).trans (lies.get bound)

/-- Bytes that go over the first ones. -/
theorem Lies.overwrite (lies : Lies content held) (filled : Bytes) :
    Lies (writeBytes content 0 filled) (filled ++ held.drop filled.length) := by
  apply lies_of_get
  intro index bound
  rw [List.length_append, List.length_drop] at bound
  rw [List.getElem_append, writeBytes, if_pos (Nat.zero_le _), Nat.sub_zero]
  split
  · next before => rw [List.getElem?_eq_getElem before, Option.getD_some]
  · next behind =>
      rw [List.getElem?_eq_none (Nat.le_of_not_lt behind), Option.getD_none, List.getElem_drop,
        lies.get (by omega)]
      congr 1
      omega

theorem Lies.first {more : Bytes} (lies : Lies content (held ++ more)) : Lies content held := by
  apply lies_of_get
  intro index bound
  rw [lies.get (by rw [List.length_append]; omega), List.getElem_append_left bound]

/-- A NUL that goes behind a string. -/
theorem Lies.set (lies : Lies content held) (behind : Nat) :
    Lies (writeBytes content behind [0]) (held.set behind 0) := by
  apply lies_of_get
  intro index bound
  rw [List.length_set] at bound
  rw [List.getElem_set, writeBytes]
  by_cases here : behind = index
  · subst here
    simp
  · rw [if_neg here, ← lies.get bound]
    split
    · next le =>
        rw [List.getElem?_eq_none (by rw [List.length_singleton]; omega), Option.getD_none]
    · rfl

end Blocks

/-! ## The socket -/

section Sockets

variable {socket : List Segment} {rest : Bytes} {state next : State} {offset nbytes : Nat}
  {count : Option Nat}

theorem Gives.reading (gives : Gives socket rest) (nbytes : Nat) :
    (readSegments socket nbytes).bytes = rest.take nbytes ∧
      (readSegments socket nbytes).succeeded = true ∧
      Gives (readSegments socket nbytes).socket (rest.drop nbytes) := by
  rcases gives with rfl | ⟨rfl, rfl⟩
  · rw [readSegments]
    split
    · exact ⟨rfl, rfl, .inl rfl⟩
    · next short =>
        have all : rest.length ≤ nbytes := Nat.le_of_not_le short
        exact ⟨(List.take_of_length_le all).symm, rfl, .inr ⟨rfl, List.drop_of_length_le all⟩⟩
  · rw [readSegments, List.take_nil, List.drop_nil]
    exact ⟨rfl, rfl, .inr ⟨rfl, rfl⟩⟩

/-- What `read_from_socket` does for a client without TLS. -/
theorem Gives.read (gives : Gives state.socket rest)
    (filled : readFromSocket state offset nbytes = some (next, count)) :
    ∃ buffer content socket, state.current = some buffer ∧
      state.blocks buffer.data = some content ∧ Gives socket (rest.drop nbytes) ∧
      next = { state.setBlock buffer.data
        (some (writeBytes content offset (rest.take nbytes))) with socket := socket } ∧
      count = some (rest.take nbytes).length := by
  obtain ⟨buffer, content, current, allocated, same, counts⟩ := readFromSocket_eq filled
  obtain ⟨bytes, succeeded, left⟩ := gives.reading nbytes
  rw [bytes] at same counts
  rw [succeeded] at counts
  exact ⟨buffer, content, _, current, allocated, left, same, counts⟩

theorem readFromSocket_isSome {buffer : QueryBuffer} {content : Nat → UInt8}
    (plain : state.ssl = false) (current : state.current = some buffer)
    (allocated : state.blocks buffer.data = some content) (offset nbytes : Nat) :
    ∃ result, readFromSocket state offset nbytes = some result := by
  simp [readFromSocket, plain, current, allocated]

end Sockets

/-! ## Taking bytes -/

section Taking

variable {config : Config} {state next : State} {scan : Scan} {n : Nat} {moved : Bool}
  {offset : Option Nat}

theorem alone_congr (alone : Alone state) (pending : next.pending = state.pending)
    (readBuf : next.readBuf = state.readBuf) : Alone next := by
  intro queued member
  rw [readBuf]
  exact alone queued (pending ▸ member)

/-- The buffer with room for what is read, in which the bytes are kept. -/
theorem Sees.room (sees : Sees state scan) {buffer : QueryBuffer}
    (current : state.current = some buffer) {required : Nat} {grown : State}
    (room : (buffer.size < required ∧ growBuffer config state required moved = some grown) ∨
      (required ≤ buffer.size ∧ grown = state)) :
    ∃ after content, grown.current = some after ∧ grown.blocks after.data = some content ∧
      after.size = max scan.capacity required ∧ Lies content scan.held ∧ Counted grown ∧
      Undisturbed state grown ∧ grown.socket = state.socket ∧ grown.readBuf = state.readBuf := by
  obtain ⟨before, content, same, allocated, capacity, lies⟩ := sees.memory
  rw [current] at same
  cases same
  rcases room with ⟨small, grew⟩ | ⟨enough, rfl⟩
  · have counted : Counted grown := by
      rw [Counted, growBuffer_references grew]
      exact growBuffer_counted sees.counted grew
    obtain ⟨same, kept, again, allocatedAgain, ⟨_, rfl⟩ | ⟨_, rfl⟩⟩ := growBuffer_eq grew
    · rw [current] at again
      cases again
      rw [allocated] at allocatedAgain
      cases allocatedAgain
      refine ⟨{ buffer with size := required }, content, ?_, allocated, ?_, lies, counted,
        growBuffer_undisturbed grew, rfl, rfl⟩
      · exact Function.update_self ..
      · rw [← capacity]
        exact (Nat.max_eq_right (Nat.le_of_lt small)).symm
    · rw [current] at again
      cases again
      rw [allocated] at allocatedAgain
      cases allocatedAgain
      refine ⟨{ buffer with data := state.nextAddress, size := required }, _,
        Function.update_self .., Function.update_self .., ?_, ?_, counted,
        growBuffer_undisturbed grew, rfl, rfl⟩
      · rw [← capacity]
        exact (Nat.max_eq_right (Nat.le_of_lt small)).symm
      · apply lies.congr
        intro index bound
        have inside := sees.inside
        exact if_pos (by omega)
  · refine ⟨buffer, content, current, allocated, ?_, lies, sees.counted,
      ⟨rfl, rfl, rfl, rfl, rfl, rfl, rfl, rfl⟩, rfl, rfl⟩
    rw [← capacity]
    exact (Nat.max_eq_left enough).symm

/-- The memory behind a string of the scan. -/
theorem Sees.string (sees : Sees state scan) {range : Range}
    (inside : range.offset + range.length ≤ scan.held.length) {buffer : QueryBuffer}
    {content : Nat → UInt8} (current : state.current = some buffer)
    (allocated : state.blocks buffer.data = some content) :
    readRange content range = (scan.held.drop range.offset).take range.length := by
  obtain ⟨same, kept, again, allocatedAgain, _, lies⟩ := sees.memory
  rw [current] at again
  cases again
  rw [allocated] at allocatedAgain
  cases allocatedAgain
  exact lies.string inside

/-- The socket was read for `more` bytes, which are added to those of a buffer with room. -/
structure Fetched (state : State) (scan : Scan) (more : Nat) (read : State) : Prop where
  counted : Counted read
  undisturbed : Undisturbed state read
  readBuf : read.readBuf = state.readBuf
  memory : ∃ buffer content, read.current = some buffer ∧
    read.blocks buffer.data = some content ∧
    buffer.size = max scan.capacity (scan.held.length + more) ∧
    Lies content (scan.held ++ scan.rest.take more)
  socket : Gives read.socket (scan.rest.drop more)

/-- A read that the bytes of the buffer are not enough for. -/
theorem Sees.reads (sees : Sees state scan) {read : State} {count : Option Nat}
    (reads : Reads config state n moved read count) {more : Nat}
    (missing : n - (scan.held.length - scan.position) = more) :
    Fetched state scan more read ∧ count = some (scan.rest.take more).length ∧
      scan.held.length + more ≤ int32Max := by
  obtain ⟨buffer, grown, current, bounded, room, filled⟩ := reads
  rw [sees.size, sees.position, missing] at bounded room filled
  have ordered := sees.ordered
  rw [show scan.position + (scan.held.length - scan.position) = scan.held.length by omega] at filled
  obtain ⟨after, content, grownCurrent, allocated, size, lies, counted, undisturbed, socket,
    readBuf⟩ := sees.room current room
  have gives : Gives grown.socket scan.rest := by
    rw [socket]
    exact sees.socket
  obtain ⟨same, kept, left, again, allocatedAgain, givesLeft, rfl, rfl⟩ := gives.read filled
  rw [grownCurrent] at again
  cases again
  rw [allocated] at allocatedAgain
  cases allocatedAgain
  have framed := readFromSocket_framed filled
  refine ⟨⟨framed.counted counted, undisturbed.trans (readFromSocket_undisturbed filled), readBuf,
    ?_, givesLeft⟩, rfl, bounded⟩
  exact ⟨after, _, grownCurrent, Function.update_self .., size, lies.append _⟩

/-- The buffer that was grown for bytes of which none came. -/
def Scan.grow (scan : Scan) (more : Nat) : Scan :=
  { scan with capacity := max scan.capacity (scan.held.length + more) }

/-- The bytes that were asked for, behind the others. -/
def Scan.fetch (scan : Scan) (more n : Nat) : Scan :=
  { scan.grow more with
    held := scan.held ++ scan.rest.take more, rest := scan.rest.drop more
    position := scan.position + n }

theorem Scan.take_lacking {more : Nat} (missing : n - (scan.held.length - scan.position) = more)
    (lacks : more ≠ 0) (bounded : scan.held.length + more ≤ int32Max) :
    scan.take n = if scan.rest = [] then some (scan.grow more, none)
      else if more ≤ scan.rest.length then
        some (scan.fetch more n, some (((scan.fetch more n).held.drop scan.position).take n))
      else none := by
  rw [Scan.take, missing, if_neg lacks, if_neg (Nat.not_lt.mpr bounded)]
  rfl

section Fetching

variable {more : Nat} {read : State}

/-- What `take_n_bytes` counts when some byte came. -/
def State.counting (read : State) (more position : Nat) : State :=
  { read with size := read.size + more, position := position }

theorem Fetched.nothing (fetched : Fetched state scan more read) (sees : Sees state scan)
    (dry : scan.rest = []) : Sees read (scan.grow more) := by
  obtain ⟨buffer, content, current, allocated, capacity, lies⟩ := fetched.memory
  have gives := fetched.socket
  rw [dry, List.take_nil, List.append_nil] at lies
  rw [dry, List.drop_nil] at gives
  exact {
    counted := fetched.counted
    connected := fetched.undisturbed.connected.trans sees.connected
    plain := fetched.undisturbed.ssl.trans sees.plain
    memory := ⟨buffer, content, current, allocated, capacity, lies⟩
    size := fetched.undisturbed.size.trans sees.size
    position := fetched.undisturbed.position.trans sees.position
    ordered := sees.ordered
    inside := Nat.le_trans sees.inside (Nat.le_max_left _ _)
    socket := by
      rw [show (scan.grow more).rest = [] from dry]
      exact gives
    full := fun left => absurd dry left
    alone := fun alone =>
      alone_congr (sees.alone alone) fetched.undisturbed.pending fetched.readBuf }

/-- All of the bytes came. -/
theorem Fetched.enough (fetched : Fetched state scan more read) (sees : Sees state scan)
    (full : scan.held.length = scan.capacity) (enough : more ≤ scan.rest.length)
    (within : scan.position + n ≤ scan.held.length + more) :
    Sees (read.counting more (scan.position + n)) (scan.fetch more n) := by
  obtain ⟨buffer, content, current, allocated, capacity, lies⟩ := fetched.memory
  have length : (scan.fetch more n).held.length = scan.held.length + more := by
    change (scan.held ++ scan.rest.take more).length = _
    rw [List.length_append, List.length_take, Nat.min_eq_left enough]
  have wide : (scan.fetch more n).held.length = (scan.fetch more n).capacity := by
    rw [length]
    exact (Nat.max_eq_right (by omega)).symm
  exact {
    counted := { fetched.counted with }
    connected := fetched.undisturbed.connected.trans sees.connected
    plain := fetched.undisturbed.ssl.trans sees.plain
    memory := ⟨buffer, content, current, allocated, capacity, lies⟩
    size := by
      rw [length, ← sees.size, ← fetched.undisturbed.size]
      rfl
    position := rfl
    ordered := Nat.le_trans within (Nat.le_of_eq length.symm)
    inside := Nat.le_of_eq wide
    socket := fetched.socket
    full := fun _ => wide
    alone := fun alone =>
      alone_congr (sees.alone alone) fetched.undisturbed.pending fetched.readBuf }

/-- Fewer came than are counted: memory behind them is taken for the others. -/
theorem Fetched.few (fetched : Fetched state scan more read) (sees : Sees state scan)
    (full : scan.held.length = scan.capacity) (few : scan.rest.length ≤ more)
    (ends : scan.position + n = scan.held.length + more) :
    ∃ after : Scan, Sees (read.counting more (scan.position + n)) after ∧
      after.shared = scan.shared ∧ after.Spent ∧ after.held.length = after.capacity ∧
      scan.position + n = after.position := by
  obtain ⟨buffer, content, current, allocated, capacity, -⟩ := fetched.memory
  have gives := fetched.socket
  rw [List.drop_of_length_le few] at gives
  obtain ⟨held, length, lies⟩ : ∃ held : Bytes, held.length = scan.held.length + more ∧
      Lies content held :=
    ⟨readRange content ⟨0, scan.held.length + more⟩, readRange_length .., by
      rw [Lies, readRange_length]⟩
  have wide : held.length = buffer.size := by
    rw [length, capacity]
    omega
  refine ⟨⟨held, scan.position + n, buffer.size, [], scan.shared⟩, ?_, rfl,
    ⟨ends.trans length.symm, rfl⟩, wide, rfl⟩
  exact {
    counted := { fetched.counted with }
    connected := fetched.undisturbed.connected.trans sees.connected
    plain := fetched.undisturbed.ssl.trans sees.plain
    memory := ⟨buffer, content, current, allocated, rfl, lies⟩
    size := by
      rw [length, ← sees.size, ← fetched.undisturbed.size]
      rfl
    position := rfl
    ordered := Nat.le_of_eq (ends.trans length.symm)
    inside := Nat.le_of_eq wide
    socket := gives
    full := fun left => absurd rfl left
    alone := fun alone =>
      alone_congr (sees.alone alone) fetched.undisturbed.pending fetched.readBuf }

end Fetching

/-- What `take_n_bytes` does with the bytes: what a scan says, or it counts bytes that never came
and leaves none behind them. -/
theorem Sees.takes (sees : Sees state scan)
    (took : takeNBytes config state n moved = some (next, offset)) :
    next.activity = state.activity ∧ offset.getD next.position = scan.position ∧
      ((∃ after bytes, scan.take n = some (after, bytes) ∧ Sees next after ∧
          after.shared = scan.shared ∧
          ∀ buffer content, next.current = some buffer → next.blocks buffer.data = some content →
            offset.map (fun offset => readRange content ⟨offset, n⟩) = bytes) ∨
        (scan.take n = none ∧ 2 ≤ n ∧ offset ≠ none ∧
          ∃ after : Scan, Sees next after ∧ after.shared = scan.shared ∧ after.Spent ∧
            after.held.length = after.capacity ∧ scan.position + n = after.position)) := by
  have ordered := sees.ordered
  rcases takeNBytes_eq took with ⟨there, rfl, rfl⟩ | ⟨missing, read, count, ⟨reads⟩, ended⟩
  · refine ⟨rfl, sees.position, .inl ?_⟩
    rw [sees.size, sees.position] at there
    have within : scan.position + n ≤ scan.held.length := by omega
    have after : Sees { state with position := state.position + n }
        { scan with position := scan.position + n } := { sees with
      counted := { sees.counted with }
      position := congrArg (· + n) sees.position
      ordered := within
      alone := fun alone => alone_congr (sees.alone alone) rfl rfl }
    refine ⟨_, some ((scan.held.drop scan.position).take n), ?_, after, rfl, ?_⟩
    · rw [Scan.take, show n - (scan.held.length - scan.position) = 0 by omega]
      rfl
    · intro buffer content current allocated
      rw [Option.map_some, sees.position]
      exact congrArg some (after.string within current allocated)
  · rw [sees.size, sees.position] at missing ended
    generalize lacked : n - (scan.held.length - scan.position) = more at *
    obtain ⟨fetched, rfl, bounded⟩ := sees.reads reads lacked
    rw [Scan.take_lacking lacked (by omega) bounded]
    rw [Option.getD_some, List.length_take] at ended
    rcases ended with ⟨nothing, rfl, rfl⟩ | ⟨some_, rfl, rfl⟩
    · have dry : scan.rest = [] := List.eq_nil_of_length_eq_zero (by omega)
      rw [if_pos dry]
      have after := fetched.nothing sees dry
      exact ⟨fetched.undisturbed.activity, after.position,
        .inl ⟨_, _, rfl, after, rfl, fun _ _ _ _ => rfl⟩⟩
    · have left : scan.rest ≠ [] := fun dry => some_ (by rw [dry]; exact Nat.min_zero _)
      have full := sees.full left
      have few := List.length_pos_of_ne_nil left
      refine ⟨fetched.undisturbed.activity, rfl, ?_⟩
      rw [if_neg left]
      by_cases enough : more ≤ scan.rest.length
      · rw [if_pos enough]
        have within : scan.position + n ≤ scan.held.length + more := by omega
        have after := fetched.enough sees full enough within
        refine .inl ⟨_, _, rfl, after, rfl, fun buffer content current allocated => ?_⟩
        have inside : (⟨scan.position, n⟩ : Range).offset + n ≤ (scan.fetch more n).held.length :=
          after.ordered
        exact congrArg some (after.string inside current allocated)
      · rw [if_neg enough]
        exact .inr ⟨rfl, by omega, Option.some_ne_none _,
          fetched.few sees full (by omega) (by omega)⟩

theorem growBuffer_isSome {buffer : QueryBuffer} {content : Nat → UInt8}
    (current : state.current = some buffer) (allocated : state.blocks buffer.data = some content)
    (required : Nat) (moved : Bool) :
    ∃ grown, growBuffer config state required moved = some grown := by
  cases moved <;> simp [growBuffer, current, allocated]

theorem Sees.takeNBytes_isSome (sees : Sees state scan) {taken : Scan × Option Bytes}
    (took : scan.take n = some taken) (moved : Bool) :
    ∃ result, takeNBytes config state n moved = some result := by
  obtain ⟨buffer, content, current, allocated, capacity, lies⟩ := sees.memory
  have ordered := sees.ordered
  rw [takeNBytes, sees.size, sees.position]
  by_cases there : n ≤ scan.held.length - scan.position
  · rw [if_pos there]
    exact ⟨_, rfl⟩
  · rw [Scan.take, if_neg (show n - (scan.held.length - scan.position) ≠ 0 by omega)] at took
    rw [if_neg there, current]
    simp only [Option.bind_eq_bind, Option.bind_some]
    split at took
    · cases took
    · next bounded =>
        rw [if_neg bounded]
        have finish : ∀ grown, (buffer.size <
              scan.held.length + (n - (scan.held.length - scan.position)) ∧
              growBuffer config state
                (scan.held.length + (n - (scan.held.length - scan.position))) moved = some grown) ∨
            (scan.held.length + (n - (scan.held.length - scan.position)) ≤ buffer.size ∧
              grown = state) →
            ∃ read, readFromSocket grown (scan.position + (scan.held.length - scan.position))
              (n - (scan.held.length - scan.position)) = some read := by
          intro grown ways
          obtain ⟨after, kept, grownCurrent, grownAllocated, -, -, -, undisturbed, -⟩ :=
            sees.room current ways
          exact readFromSocket_isSome (undisturbed.ssl.trans sees.plain) grownCurrent
            grownAllocated _ _
        split
        · next small =>
            obtain ⟨grown, grew⟩ := growBuffer_isSome current allocated
              (scan.held.length + (n - (scan.held.length - scan.position))) moved
            obtain ⟨read, filled⟩ := finish grown (.inl ⟨small, grew⟩)
            rw [grew, Option.bind_some, filled, Option.bind_some]
            split <;> exact ⟨_, rfl⟩
        · next enough =>
            obtain ⟨read, filled⟩ := finish state (.inr ⟨Nat.le_of_not_lt enough, rfl⟩)
            rw [filled, Option.bind_some]
            split <;> exact ⟨_, rfl⟩

end Taking

/-! ## The end of a command -/

section Commands

variable {config : Config} {state next : State} {scan : Scan}

/-- The NULs of an inline command. -/
theorem Sees.terminates (sees : Sees state scan) {ranges : List Range}
    (terminated : terminateStrings state ranges = some next) :
    scan.Fits ranges ∧ Sees next (scan.terminate ranges) ∧ next.activity = state.activity := by
  induction ranges generalizing state scan with
  | nil =>
      cases terminated
      exact ⟨fun range member => absurd member List.not_mem_nil, sees, rfl⟩
  | cons range rest inductionHypothesis =>
      obtain ⟨middle, first, later⟩ := Option.bind_eq_some_iff.mp terminated
      have single : terminateStrings state [range] = some middle := by
        rw [terminateStrings, first]
        rfl
      obtain ⟨framed, undisturbed⟩ := terminateStrings_framed single
      have socket := terminateStrings_socket single
      obtain ⟨buffer, content, current, allocated, inside, rfl⟩ := terminateString_eq first
      obtain ⟨same, kept, again, allocatedAgain, capacity, lies⟩ := sees.memory
      rw [current] at again
      cases again
      rw [allocated] at allocatedAgain
      cases allocatedAgain
      have length : (scan.held.set (range.offset + range.length) 0).length = scan.held.length :=
        List.length_set ..
      have middleSees : Sees (state.setBlock buffer.data
          (some (writeBytes content (range.offset + range.length) [0])))
          { scan with held := scan.held.set (range.offset + range.length) 0 } := {
        counted := framed.counted sees.counted
        connected := sees.connected
        plain := sees.plain
        memory := ⟨buffer, _, current, Function.update_self .., capacity, lies.set _⟩
        size := sees.size.trans length.symm
        position := sees.position
        ordered := Nat.le_trans sees.ordered (Nat.le_of_eq length.symm)
        inside := Nat.le_trans (Nat.le_of_eq length) sees.inside
        socket := sees.socket
        full := fun left => length.trans (sees.full left)
        alone := fun shared => alone_congr (sees.alone shared) rfl rfl }
      obtain ⟨fits, restSees, activity⟩ := inductionHypothesis middleSees later
      refine ⟨fun other member => ?_, restSees, activity⟩
      rcases List.mem_cons.mp member with rfl | behind
      · exact Nat.lt_of_lt_of_eq inside capacity
      · exact fits other behind

theorem Sees.terminateStrings_isSome (sees : Sees state scan) {ranges : List Range}
    (fits : scan.Fits ranges) : ∃ next, terminateStrings state ranges = some next := by
  induction ranges generalizing state scan with
  | nil => exact ⟨state, rfl⟩
  | cons range rest inductionHypothesis =>
      obtain ⟨buffer, content, current, allocated, capacity, lies⟩ := sees.memory
      have inside : range.offset + range.length < buffer.size := by
        rw [capacity]
        exact fits range (List.mem_cons_self ..)
      obtain ⟨middle, first⟩ : ∃ middle, terminateString state range = some middle := by
        simp [terminateString, current, allocated, inside]
      have single : terminateStrings state [range] = some middle := by
        rw [terminateStrings, first]
        rfl
      obtain ⟨next, later⟩ := inductionHypothesis (sees.terminates single).2.1
        fun other member => fits other (List.mem_cons_of_mem _ member)
      refine ⟨next, ?_⟩
      rw [terminateStrings, first]
      exact later

/-- The strings of the command lie in the buffer of the client. -/
def Located (state : State) (command : Command) : Prop :=
  ∃ buffer, state.current = some buffer ∧ command.name.block = buffer.data ∧
    ∀ argument ∈ command.args, argument.block = buffer.data

/-- They do, and the name in bytes that were read. -/
structure Names (state : State) (command : Command) (scan : Scan) : Prop where
  found : Located state command
  inside : command.name.range.offset + command.name.range.length ≤ scan.held.length

/-- What the reader is doing behind what a stage made of its bytes. -/
def Comes (state : State) (scan : Scan) : Parsed → Prop
  | .more later => state.activity = .parsing later ∧ Sees state scan ∧
      Within 0 scan.position later.ranges
  | .failed => state.activity = .parsing .type ∧ Sees state scan
  | .command name args inline =>
      (inline = true → scan.Fits (name :: args)) ∧
        ∃ command, state.activity = .parsed command ∧
          Sees state (scan.ended inline (name :: args)) ∧
          Names state command (scan.ended inline (name :: args)) ∧ command.name.range = name
  | .overflow => False

/-- What is seen does not depend on what the reader is doing. -/
theorem Sees.doing (sees : Sees state scan) (activity : Activity) :
    Sees { state with activity := activity } scan :=
  { sees with
    counted := { sees.counted with }
    alone := fun shared => alone_congr (sees.alone shared) rfl rfl }

theorem Sees.comes (sees : Sees state scan) {parsed : Parsed}
    (within : Within 0 scan.position parsed.ranges) (continues : Continues state parsed next) :
    Comes next scan parsed := by
  cases continues with
  | more stage => exact ⟨rfl, sees.doing _, within⟩
  | failed => exact ⟨rfl, sees.doing _⟩
  | @command name args terminated next inline ended resolved =>
      have reached : (inline = true → scan.Fits (name :: args)) ∧
          Sees terminated (scan.ended inline (name :: args)) := by
        cases inline with
        | false =>
            cases ended
            exact ⟨fun inline => Bool.noConfusion inline, sees⟩
        | true =>
            obtain ⟨fits, terminatedSees, -⟩ := sees.terminates ended
            exact ⟨fun _ => fits, terminatedSees⟩
      obtain ⟨fits, terminatedSees⟩ := reached
      obtain ⟨buffer, current, resolved⟩ := Option.bind_eq_some_iff.mp resolved
      obtain ⟨content, allocated, resolved⟩ := Option.bind_eq_some_iff.mp resolved
      cases resolved
      refine ⟨fits, _, rfl, terminatedSees.doing _, ⟨⟨buffer, current, rfl, ?_⟩, ?_⟩, rfl⟩
      · intro argument member
        obtain ⟨range, -, rfl⟩ := List.mem_map.mp member
        rfl
      · rw [length_ended]
        exact Nat.le_trans within.head.2 sees.ordered

/-- Behind a step of a parser the rest is read to its end exactly when it was before: the step
does what a scan says, or takes bytes that never came, behind which nothing returns. -/
theorem Sees.took (sees : Sees state scan) {stage : Stage} {moved : Bool}
    (parsing : state.activity = .parsing stage) (within : Within 0 scan.position stage.ranges)
    (took : take config state moved = some next) :
    ∃ after parsed, Comes next after parsed ∧ after.shared = scan.shared ∧
      ∀ known, Returns known stage scan ↔ Resumes known after parsed := by
  obtain ⟨same, taken, offset, buffer, content, again, bytes, current, allocated, continues⟩ :=
    take_eq took
  rw [parsing] at again
  cases again
  obtain ⟨-, start, ⟨after, string, scanned, afterSees, shared, read⟩ |
    ⟨stops, several, got, after, afterSees, shared, spent, full, behind⟩⟩ := sees.takes bytes
  · have reads := read buffer content current allocated
    rw [start, afterSees.position, afterSees.size, reads] at continues
    refine ⟨after, _, afterSees.comes (Stage.next_within within (Nat.zero_le _)
      (Scan.take_position scanned)) continues, shared, fun known => ?_⟩
    rw [returns_iff, Scan.parse, scanned]
    constructor
    · rintro ⟨_, _, same, resumes⟩
      cases same
      exact resumes
    · exact fun resumes => ⟨_, _, rfl, resumes⟩
  · obtain ⟨position, rfl⟩ := Option.ne_none_iff_exists'.mp got
    rw [start, afterSees.position, afterSees.size, Option.map_some] at continues
    refine ⟨after, _, afterSees.comes (Stage.next_within within (Nat.zero_le _) ?_) continues,
      shared, fun known => ?_⟩
    · rw [if_neg (Option.some_ne_none _)]
      exact behind
    · rw [returns_iff, Scan.parse, stops]
      constructor
      · rintro ⟨_, _, same, -⟩
        cases same
      · exact fun resumes => absurd resumes (not_resumes spent full several _ _)

/-- Where a scan goes on, so does the parser. -/
theorem Sees.take_isSome (sees : Sees state scan) {known : Bytes → Bool} {stage : Stage}
    (parsing : state.activity = .parsing stage) (returns : Returns known stage scan)
    (moved : Bool) : ∃ next, take config state moved = some next := by
  obtain ⟨after, parsed, parse, resumes⟩ := returns_iff.mp returns
  obtain ⟨⟨scanned, string⟩, took, same⟩ := Option.map_eq_some_iff.mp parse
  cases same
  obtain ⟨⟨taken, offset⟩, bytes⟩ : ∃ result, takeNBytes config state stage.request moved =
      some result := sees.takeNBytes_isSome took moved
  obtain ⟨-, start, ⟨reached, read, again, takenSees, -, reads⟩ | ⟨stops, -⟩⟩ := sees.takes bytes
  · rw [took] at again
    cases again
    obtain ⟨buffer, content, current, allocated, -⟩ := takenSees.memory
    have reading := reads buffer content current allocated
    rw [← start, ← takenSees.position, ← takenSees.size] at resumes
    rw [take, parsing]
    simp only [bytes, current, allocated, Option.bind_eq_bind, Option.bind_some, reading]
    cases made : stage.next (offset.getD taken.position) taken.position taken.size string with
    | more later => exact ⟨_, rfl⟩
    | failed => exact ⟨_, rfl⟩
    | overflow =>
        rw [made] at resumes
        exact resumes.elim
    | command name args inline =>
        rw [made] at resumes
        cases inline with
        | false => simp [resolve, current, allocated]
        | true =>
            obtain ⟨terminated, ended⟩ := takenSees.terminateStrings_isSome (resumes.1 rfl)
            obtain ⟨buffer, content, current, allocated, -⟩ :=
              (takenSees.terminates ended).2.1.memory
            simp [ended, resolve, current, allocated]
  · rw [stops] at took
    cases took

end Commands

end TellyDB.Server.Reader
