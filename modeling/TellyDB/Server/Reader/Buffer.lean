import TellyDB.Resp.Parsing
import TellyDB.Server.Reader
import Mathlib.Data.List.Perm.Basic

/-!
Owns the facts about the read buffers that do not depend on what is read: what
writing changes, what each function does to memory, and that the reference
counts are those of the transactions and of the client.
-/

namespace TellyDB.Server.Reader

open Resp

/-! ## Blocks -/

@[simp] theorem readRange_length (content : Nat → UInt8) (range : Range) :
    (readRange content range).length = range.length := by
  simp [readRange]

theorem readRange_append (content : Nat → UInt8) (offset first second : Nat) :
    readRange content ⟨offset, first + second⟩ =
      readRange content ⟨offset, first⟩ ++ readRange content ⟨offset + first, second⟩ := by
  simp only [readRange, List.range_add, List.map_append, List.map_map]
  congr 2
  funext index
  simp [Nat.add_assoc]

/-- The parts of what a range holds. -/
theorem readRange_parts {content : Nat → UInt8} {offset : Nat} {first second : Bytes}
    (holds : readRange content ⟨offset, (first ++ second).length⟩ = first ++ second) :
    readRange content ⟨offset, first.length⟩ = first ∧
      readRange content ⟨offset + first.length, second.length⟩ = second := by
  rw [List.length_append, readRange_append] at holds
  exact List.append_inj holds (readRange_length ..)

theorem readRange_congr {first second : Nat → UInt8} {range : Range}
    (same : ∀ index < range.length, first (range.offset + index) = second (range.offset + index)) :
    readRange first range = readRange second range := by
  apply List.map_congr_left
  intro index member
  exact same index (List.mem_range.mp member)

/-- Bytes in front of what was written. -/
theorem readRange_before {content : Nat → UInt8} {offset : Nat} {bytes : Bytes} {range : Range}
    (before : range.offset + range.length ≤ offset) :
    readRange (writeBytes content offset bytes) range = readRange content range := by
  apply readRange_congr
  intro index bound
  rw [writeBytes, if_neg (by omega)]

/-- What was written. -/
theorem readRange_written (content : Nat → UInt8) (offset : Nat) (bytes : Bytes) :
    readRange (writeBytes content offset bytes) ⟨offset, bytes.length⟩ = bytes := by
  apply List.ext_getElem (readRange_length ..)
  intro index bound inside
  simp [readRange, writeBytes, List.getElem?_eq_getElem inside]

theorem writeBytes_nil (content : Nat → UInt8) (offset : Nat) :
    writeBytes content offset [] = content := by
  funext index
  simp [writeBytes]

/-- The strings of a command lie where its ranges say. -/
theorem readRange_strings {content : Nat → UInt8} {offset : Nat} {strings : List Bytes}
    (holds : readRange content ⟨offset, (strings.flatMap createRespString).length⟩ =
      strings.flatMap createRespString) :
    (stringRanges offset strings).map (readRange content) = strings := by
  induction strings generalizing offset with
  | nil => rfl
  | cons string rest inductionHypothesis =>
      rw [List.flatMap_cons] at holds
      obtain ⟨first, later⟩ := readRange_parts holds
      have header : createRespString string =
          (0x24 :: (decimal string.length ++ [0x0d, 0x0a])) ++ (string ++ crlf) := by
        rw [createRespString_eq]
        simp
      rw [header] at first
      have body := (readRange_parts (readRange_parts first).2).1
      have length : (0x24 :: (decimal string.length ++ [0x0d, 0x0a])).length =
          1 + (decimal string.length).length + 2 := by
        simp only [List.length_cons, List.length_append, List.length_nil]
        omega
      rw [length] at body
      rw [stringRanges, List.map_cons, body, inductionHypothesis later]

theorem readRange_command {content : Nat → UInt8} {offset : Nat} {command : CommandData}
    (holds : readRange content ⟨offset, (encodeCommand command).length⟩ =
      encodeCommand command) :
    (commandRanges offset command).map (readRange content) = command.strings := by
  have header : encodeCommand command =
      (0x2a :: (decimal command.strings.length ++ [0x0d, 0x0a])) ++
        command.strings.flatMap createRespString := by
    rw [encodeCommand]
    simp [show text "*" = [0x2a] from rfl, crlf]
  rw [header] at holds
  have strings := (readRange_parts holds).2
  have length : (0x2a :: (decimal command.strings.length ++ [0x0d, 0x0a])).length =
      1 + (decimal command.strings.length).length + 2 := by
    simp only [List.length_cons, List.length_append, List.length_nil]
    omega
  rw [length] at strings
  exact readRange_strings strings

/-! ## References -/

/-- The transactions that refer to a buffer, and the client if it does. -/
def State.references (state : State) (address : Nat) : Nat :=
  state.pending.countP (fun transaction => transaction.readBuf = address) +
    if state.connected ∧ state.readBuf = address then 1 else 0

/-- The reference counts are `references`, and every buffer has a block of its own. -/
structure CountedBy (references : Nat → Nat) (state : State) : Prop where
  refcount : ∀ address buffer, state.buffers address = some buffer →
    buffer.refcount = references address
  held : ∀ address, references address ≠ 0 → state.buffers address ≠ none
  data : ∀ address buffer, state.buffers address = some buffer →
    state.blocks buffer.data ≠ none
  distinct : ∀ first second firstBuffer secondBuffer,
    state.buffers first = some firstBuffer → state.buffers second = some secondBuffer →
    firstBuffer.data = secondBuffer.data → first = second
  fresh : ∀ address, state.nextAddress ≤ address →
    state.blocks address = none ∧ state.buffers address = none

/-- The reference counts are those of the state. -/
abbrev Counted (state : State) : Prop := CountedBy state.references state

/-- The parts of a state that the reference counts speak of are the same. -/
structure Framed (state next : State) : Prop where
  buffers : next.buffers = state.buffers
  blocks : ∀ block, next.blocks block = none ↔ state.blocks block = none
  nextAddress : next.nextAddress = state.nextAddress
  readBuf : next.readBuf = state.readBuf
  connected : next.connected = state.connected
  pending : next.pending = state.pending

/-- What the functions on memory leave alone. -/
structure Undisturbed (state next : State) : Prop where
  connected : next.connected = state.connected
  ssl : next.ssl = state.ssl
  locked : next.locked = state.locked
  activity : next.activity = state.activity
  position : next.position = state.position
  size : next.size = state.size
  pending : next.pending = state.pending
  handed : next.handed = state.handed

section Rules

variable {config : Config} {state next : State}

theorem Undisturbed.trans {middle : State} (first : Undisturbed state middle)
    (second : Undisturbed middle next) : Undisturbed state next where
  connected := second.connected.trans first.connected
  ssl := second.ssl.trans first.ssl
  locked := second.locked.trans first.locked
  activity := second.activity.trans first.activity
  position := second.position.trans first.position
  size := second.size.trans first.size
  pending := second.pending.trans first.pending
  handed := second.handed.trans first.handed

theorem Framed.trans {middle : State} (first : Framed state middle) (second : Framed middle next) :
    Framed state next where
  buffers := second.buffers.trans first.buffers
  blocks block := (second.blocks block).trans (first.blocks block)
  nextAddress := second.nextAddress.trans first.nextAddress
  readBuf := second.readBuf.trans first.readBuf
  connected := second.connected.trans first.connected
  pending := second.pending.trans first.pending

theorem Framed.countedBy {references : Nat → Nat} (framed : Framed state next)
    (counted : CountedBy references state) : CountedBy references next where
  refcount address buffer found := counted.refcount address buffer (framed.buffers ▸ found)
  held address used := by
    rw [framed.buffers]
    exact counted.held address used
  data address buffer found allocated :=
    counted.data address buffer (framed.buffers ▸ found) ((framed.blocks _).mp allocated)
  distinct := by
    rw [framed.buffers]
    exact counted.distinct
  fresh address beyond := by
    rw [framed.nextAddress] at beyond
    rw [framed.blocks, framed.buffers]
    exact counted.fresh address beyond

/-- Bytes go into a block that is allocated. -/
theorem framed_setBlock {block : Nat} {content : Nat → UInt8} (allocated : state.blocks block ≠ none) :
    Framed state (state.setBlock block (some content)) where
  buffers := rfl
  blocks other := by
    simp only [State.setBlock, Function.update_apply]
    split
    · rename_i same
      simp [same, allocated]
    · rfl
  nextAddress := rfl
  readBuf := rfl
  connected := rfl
  pending := rfl

/-- What `read_from_socket` does. -/
theorem readFromSocket_eq {offset nbytes : Nat} {count : Option Nat}
    (read : readFromSocket state offset nbytes = some (next, count)) :
    ∃ buffer content, state.current = some buffer ∧ state.blocks buffer.data = some content ∧
      next = { state.setBlock buffer.data
          (some (writeBytes content offset (readSegments state.socket nbytes).bytes)) with
        socket := (readSegments state.socket nbytes).socket } ∧
      count = if (readSegments state.socket nbytes).succeeded then
        some (readSegments state.socket nbytes).bytes.length else none := by
  rcases Option.bind_eq_some_iff.mp read with ⟨buffer, current, read⟩
  rcases Option.bind_eq_some_iff.mp read with ⟨content, allocated, read⟩
  rw [Option.ite_none_left_eq_some] at read
  cases read.2
  exact ⟨buffer, content, current, allocated, rfl, rfl⟩

theorem readFromSocket_framed {offset nbytes : Nat} {count : Option Nat}
    (read : readFromSocket state offset nbytes = some (next, count)) : Framed state next := by
  obtain ⟨buffer, content, _, allocated, rfl, _⟩ := readFromSocket_eq read
  have written : state.blocks buffer.data ≠ none := by
    rw [allocated]
    exact Option.some_ne_none _
  exact { framed_setBlock written with }

theorem readFromSocket_undisturbed {offset nbytes : Nat} {count : Option Nat}
    (read : readFromSocket state offset nbytes = some (next, count)) : Undisturbed state next := by
  obtain ⟨_, _, _, _, rfl, _⟩ := readFromSocket_eq read
  exact ⟨rfl, rfl, rfl, rfl, rfl, rfl, rfl, rfl⟩

/-- The NUL goes behind the string, inside the buffer. -/
theorem terminateString_eq {range : Range} (terminated : terminateString state range = some next) :
    ∃ buffer content, state.current = some buffer ∧ state.blocks buffer.data = some content ∧
      range.offset + range.length < buffer.size ∧
      next = state.setBlock buffer.data
        (some (writeBytes content (range.offset + range.length) [0])) := by
  rcases Option.bind_eq_some_iff.mp terminated with ⟨buffer, current, terminated⟩
  rcases Option.bind_eq_some_iff.mp terminated with ⟨content, allocated, terminated⟩
  dsimp only at terminated
  split at terminated
  · rename_i inside
    cases terminated
    exact ⟨buffer, content, current, allocated, inside, rfl⟩
  · cases terminated

theorem terminateStrings_framed {ranges : List Range}
    (terminated : terminateStrings state ranges = some next) :
    Framed state next ∧ Undisturbed state next := by
  induction ranges generalizing state with
  | nil =>
      cases terminated
      exact ⟨⟨rfl, fun _ => Iff.rfl, rfl, rfl, rfl, rfl⟩, ⟨rfl, rfl, rfl, rfl, rfl, rfl, rfl, rfl⟩⟩
  | cons range rest inductionHypothesis =>
      rcases Option.bind_eq_some_iff.mp terminated with ⟨middle, first, later⟩
      obtain ⟨buffer, content, _, allocated, _, rfl⟩ := terminateString_eq first
      have written : state.blocks buffer.data ≠ none := by
        rw [allocated]
        exact Option.some_ne_none _
      have single : Undisturbed state (state.setBlock buffer.data
          (some (writeBytes content (range.offset + range.length) [0]))) :=
        ⟨rfl, rfl, rfl, rfl, rfl, rfl, rfl, rfl⟩
      obtain ⟨framed, undisturbed⟩ := inductionHypothesis later
      exact ⟨(framed_setBlock written).trans framed, single.trans undisturbed⟩

end Rules

/-! ## Buffers -/

section Buffers

variable {config : Config} {state next : State}

/-- The references are those of the transactions and of the client. -/
theorem references_congr (pending : next.pending = state.pending)
    (connected : next.connected = state.connected) (readBuf : next.readBuf = state.readBuf) :
    next.references = state.references := by
  funext address
  rw [State.references, State.references, pending, connected, readBuf]

theorem Framed.counted (framed : Framed state next) (counted : Counted state) : Counted next := by
  rw [Counted, references_congr framed.pending framed.connected framed.readBuf]
  exact framed.countedBy counted

/-- A buffer of the client is found while it is connected. -/
theorem Counted.current (counted : Counted state) (connected : state.connected = true) :
    ∃ buffer, state.current = some buffer := by
  apply Option.ne_none_iff_exists'.mp
  apply counted.held
  rw [State.references, if_pos ⟨connected, rfl⟩]
  exact Nat.succ_ne_zero _

/-- What `realloc` does. -/
theorem growBuffer_eq {required : Nat} {moved : Bool}
    (grown : growBuffer config state required moved = some next) :
    ∃ buffer content, state.current = some buffer ∧ state.blocks buffer.data = some content ∧
      ((moved = false ∧
          next = state.setBuffer state.readBuf (some { buffer with size := required })) ∨
        (moved = true ∧
          next = { ((state.setBlock buffer.data none).setBlock state.nextAddress (some fun index =>
              if index < buffer.size then content index
              else config.garbage state.nextAddress index)).setBuffer state.readBuf
                (some { buffer with data := state.nextAddress, size := required }) with
            nextAddress := state.nextAddress + 1 })) := by
  rcases Option.bind_eq_some_iff.mp grown with ⟨buffer, current, grown⟩
  rcases Option.bind_eq_some_iff.mp grown with ⟨content, allocated, grown⟩
  refine ⟨buffer, content, current, allocated, ?_⟩
  cases moved with
  | false =>
      cases grown
      exact .inl ⟨rfl, rfl⟩
  | true =>
      cases grown
      exact .inr ⟨rfl, rfl⟩

theorem buffers_setBuffer (address other : Nat) (buffer : Option QueryBuffer) :
    (state.setBuffer address buffer).buffers other =
      if other = address then buffer else state.buffers other :=
  Function.update_apply ..

theorem blocks_setBlock (address other : Nat) (block : Option (Nat → UInt8)) :
    (state.setBlock address block).blocks other =
      if other = address then block else state.blocks other :=
  Function.update_apply ..

variable {references : Nat → Nat}

/-- Another count for a buffer, whose size may change too. -/
theorem CountedBy.recount {address : Nat} {buffer : QueryBuffer} (refcount size : Nat)
    (counted : CountedBy references state) (found : state.buffers address = some buffer) :
    CountedBy (Function.update references address refcount)
      (state.setBuffer address (some { buffer with size := size, refcount := refcount })) := by
  have data : ∀ other written,
      (state.setBuffer address (some { buffer with size := size, refcount := refcount })).buffers
        other = some written →
      ∃ before, state.buffers other = some before ∧ written.data = before.data ∧
        written.refcount = Function.update references address refcount other := by
    intro other written stored
    rw [buffers_setBuffer] at stored
    split at stored
    · rename_i this
      cases stored
      cases this
      exact ⟨buffer, found, rfl, (Function.update_self address refcount references).symm⟩
    · rename_i others
      refine ⟨written, stored, rfl, ?_⟩
      rw [Function.update_of_ne others]
      exact counted.refcount other written stored
  exact {
    refcount := fun other written stored => by
      obtain ⟨_, _, _, count⟩ := data other written stored
      exact count
    held := fun other used => by
      rw [buffers_setBuffer]
      split
      · exact Option.some_ne_none _
      · rename_i others
        rw [Function.update_of_ne others] at used
        exact counted.held other used
    data := fun other written stored => by
      obtain ⟨before, kept, same, _⟩ := data other written stored
      rw [same]
      exact counted.data other before kept
    distinct := fun first second firstBuffer secondBuffer firstStored secondStored same => by
      obtain ⟨firstBefore, firstKept, firstSame, _⟩ := data first firstBuffer firstStored
      obtain ⟨secondBefore, secondKept, secondSame, _⟩ := data second secondBuffer secondStored
      exact counted.distinct first second firstBefore secondBefore firstKept secondKept
        (by rw [← firstSame, ← secondSame, same])
    fresh := fun other beyond => by
      refine ⟨(counted.fresh other beyond).1, ?_⟩
      rw [buffers_setBuffer, if_neg]
      · exact (counted.fresh other beyond).2
      · rintro rfl
        rw [(counted.fresh other beyond).2] at found
        cases found }

/-- A buffer is freed with its block. -/
theorem CountedBy.free {address : Nat} {buffer : QueryBuffer}
    (counted : CountedBy references state) (found : state.buffers address = some buffer) :
    CountedBy (Function.update references address 0)
      ((state.setBuffer address none).setBlock buffer.data none) := by
  have kept : ∀ other written,
      ((state.setBuffer address none).setBlock buffer.data none).buffers other = some written →
      other ≠ address ∧ state.buffers other = some written := by
    intro other written stored
    have stored : (state.setBuffer address none).buffers other = some written := stored
    rw [buffers_setBuffer] at stored
    split at stored
    · cases stored
    · rename_i others
      exact ⟨others, stored⟩
  exact {
    refcount := fun other written stored => by
      obtain ⟨others, before⟩ := kept other written stored
      rw [Function.update_of_ne others]
      exact counted.refcount other written before
    held := fun other used => by
      have others : other ≠ address := by
        rintro rfl
        exact used (Function.update_self ..)
      rw [Function.update_of_ne others] at used
      change (state.setBuffer address none).buffers other ≠ none
      rw [buffers_setBuffer, if_neg others]
      exact counted.held other used
    data := fun other written stored => by
      obtain ⟨others, before⟩ := kept other written stored
      rw [blocks_setBlock, if_neg]
      · exact counted.data other written before
      · intro same
        exact others (counted.distinct other address written buffer before found same)
    distinct := fun first second firstBuffer secondBuffer firstStored secondStored same =>
      counted.distinct first second firstBuffer secondBuffer (kept first _ firstStored).2
        (kept second _ secondStored).2 same
    fresh := fun other beyond => by
      obtain ⟨block, absent⟩ := counted.fresh other beyond
      refine ⟨?_, ?_⟩
      · rw [blocks_setBlock]
        split
        · rfl
        · exact block
      · change (state.setBuffer address none).buffers other = none
        rw [buffers_setBuffer]
        split
        · rfl
        · exact absent }

/-- The end of one reference. -/
theorem releaseBuffer_counted {address : Nat} (counted : CountedBy references state)
    (released : releaseBuffer state address = some next) :
    CountedBy (Function.update references address (references address - 1)) next := by
  rcases Option.bind_eq_some_iff.mp released with ⟨buffer, found, released⟩
  have count := counted.refcount address buffer found
  split at released
  · rename_i last
    cases released
    rw [← count, last]
    exact counted.free found
  · cases released
    rw [← count]
    exact counted.recount _ _ found

/-- A new buffer with one reference. -/
theorem allocateBuffer_counted (counted : CountedBy references state) :
    CountedBy (Function.update references state.nextAddress 1) (allocateBuffer config state) := by
  have blocks : ∀ other, (allocateBuffer config state).blocks other =
      if other = state.nextAddress then some (config.garbage state.nextAddress)
      else state.blocks other := fun _ => Function.update_apply ..
  have buffers : ∀ other, (allocateBuffer config state).buffers other =
      if other = state.nextAddress then some ⟨state.nextAddress, respBufSize, 1⟩
      else state.buffers other := fun _ => Function.update_apply ..
  have stored : ∀ other written, (allocateBuffer config state).buffers other = some written →
      (other = state.nextAddress ∧ written = ⟨state.nextAddress, respBufSize, 1⟩) ∨
        (other ≠ state.nextAddress ∧ written.data ≠ state.nextAddress ∧
          state.buffers other = some written) := by
    intro other written found
    rw [buffers] at found
    split at found
    · rename_i this
      exact .inl ⟨this, (Option.some.inj found).symm⟩
    · rename_i others
      refine .inr ⟨others, ?_, found⟩
      intro same
      apply counted.data other written found
      rw [same]
      exact (counted.fresh state.nextAddress (Nat.le_refl _)).1
  exact {
    refcount := fun other written found => by
      rcases stored other written found with ⟨rfl, rfl⟩ | ⟨others, _, before⟩
      · exact (Function.update_self state.nextAddress 1 references).symm
      · rw [Function.update_of_ne others]
        exact counted.refcount other written before
    held := fun other used => by
      rw [buffers]
      split
      · exact Option.some_ne_none _
      · rename_i others
        rw [Function.update_of_ne others] at used
        exact counted.held other used
    data := fun other written found => by
      rw [blocks]
      rcases stored other written found with ⟨_, rfl⟩ | ⟨_, elsewhere, before⟩
      · rw [if_pos rfl]
        exact Option.some_ne_none _
      · rw [if_neg elsewhere]
        exact counted.data other written before
    distinct := fun first second firstBuffer secondBuffer firstFound secondFound same => by
      rcases stored first firstBuffer firstFound with ⟨rfl, rfl⟩ | ⟨_, firstElse, firstBefore⟩
      · rcases stored second secondBuffer secondFound with ⟨rfl, _⟩ | ⟨_, secondElse, _⟩
        · rfl
        · exact absurd same.symm secondElse
      · rcases stored second secondBuffer secondFound with ⟨_, rfl⟩ | ⟨_, _, secondBefore⟩
        · exact absurd same firstElse
        · exact counted.distinct first second firstBuffer secondBuffer firstBefore secondBefore same
    fresh := fun other beyond => by
      have beyond : state.nextAddress + 1 ≤ other := beyond
      rw [blocks, buffers, if_neg (by omega), if_neg (by omega)]
      exact counted.fresh other (by omega) }

/-- The data of a buffer moves to a new block. -/
theorem CountedBy.move {address required : Nat} {buffer : QueryBuffer} {content : Nat → UInt8}
    (counted : CountedBy references state) (found : state.buffers address = some buffer)
    (buffers : next.buffers = Function.update state.buffers address
      (some { buffer with data := state.nextAddress, size := required }))
    (blocks : next.blocks = Function.update (Function.update state.blocks buffer.data none)
      state.nextAddress (some content))
    (nextAddress : next.nextAddress = state.nextAddress + 1) : CountedBy references next := by
  have stored : ∀ other written, next.buffers other = some written →
      (other = address ∧ written = { buffer with data := state.nextAddress, size := required }) ∨
        (other ≠ address ∧ state.buffers other = some written ∧
          written.data ≠ state.nextAddress ∧ written.data ≠ buffer.data) := by
    intro other written stored
    rw [buffers, Function.update_apply] at stored
    split at stored
    · rename_i this
      exact .inl ⟨this, (Option.some.inj stored).symm⟩
    · rename_i others
      refine .inr ⟨others, stored, ?_, ?_⟩
      · intro same
        apply counted.data other written stored
        rw [same]
        exact (counted.fresh state.nextAddress (Nat.le_refl _)).1
      · intro same
        exact others (counted.distinct other address written buffer stored found same)
  exact {
    refcount := fun other written before => by
      rcases stored other written before with ⟨rfl, rfl⟩ | ⟨_, kept, _, _⟩
      · exact counted.refcount other buffer found
      · exact counted.refcount other written kept
    held := fun other used => by
      rw [buffers, Function.update_apply]
      split
      · exact Option.some_ne_none _
      · exact counted.held other used
    data := fun other written before => by
      rcases stored other written before with ⟨rfl, rfl⟩ | ⟨_, kept, fresh, others⟩
      · rw [blocks, Function.update_self]
        exact Option.some_ne_none _
      · rw [blocks, Function.update_of_ne fresh, Function.update_of_ne others]
        exact counted.data other written kept
    distinct := fun first second firstBuffer secondBuffer firstStored secondStored same => by
      rcases stored first firstBuffer firstStored with ⟨rfl, rfl⟩ | ⟨_, firstKept, firstFresh, _⟩
      · rcases stored second secondBuffer secondStored with ⟨rfl, _⟩ | ⟨_, _, secondFresh, _⟩
        · rfl
        · exact absurd same.symm secondFresh
      · rcases stored second secondBuffer secondStored with ⟨_, rfl⟩ | ⟨_, secondKept, _, _⟩
        · exact absurd same firstFresh
        · exact counted.distinct first second firstBuffer secondBuffer firstKept secondKept same
    fresh := fun other beyond => by
      rw [nextAddress] at beyond
      obtain ⟨block, absent⟩ := counted.fresh other (by omega)
      refine ⟨?_, ?_⟩
      · rw [blocks, Function.update_of_ne (by omega), Function.update_apply]
        split
        · rfl
        · exact block
      · rw [buffers, Function.update_apply, if_neg]
        · exact absent
        · rintro rfl
          rw [absent] at found
          cases found }

/-- Growing a buffer leaves the counts alone. -/
theorem growBuffer_counted {required : Nat} {moved : Bool} (counted : CountedBy references state)
    (grown : growBuffer config state required moved = some next) : CountedBy references next := by
  obtain ⟨buffer, content, current, allocated, ⟨_, rfl⟩ | ⟨_, rfl⟩⟩ := growBuffer_eq grown
  · have recounted := counted.recount (references state.readBuf) required current
    rw [Function.update_eq_self, ← counted.refcount state.readBuf buffer current] at recounted
    exact recounted
  · exact counted.move current rfl rfl rfl

theorem growBuffer_references {required : Nat} {moved : Bool}
    (grown : growBuffer config state required moved = some next) :
    next.references = state.references := by
  obtain ⟨_, _, _, _, ⟨_, rfl⟩ | ⟨_, rfl⟩⟩ := growBuffer_eq grown
  · exact references_congr rfl rfl rfl
  · exact references_congr rfl rfl rfl

/-- A buffer that others refer to is replaced by a new one. -/
theorem refreshBuffer_eq (refreshed : refreshBuffer config state = some next) :
    ∃ buffer, state.current = some buffer ∧ ((buffer.refcount ≤ 1 ∧ next = state) ∨
      (1 < buffer.refcount ∧ next = allocateBuffer config (state.setBuffer state.readBuf
        (some { buffer with refcount := buffer.refcount - 1 })))) := by
  rcases Option.bind_eq_some_iff.mp refreshed with ⟨buffer, current, refreshed⟩
  refine ⟨buffer, current, ?_⟩
  split at refreshed
  · rename_i shared
    cases refreshed
    exact .inr ⟨shared, rfl⟩
  · rename_i own
    cases refreshed
    exact .inl ⟨by omega, rfl⟩

theorem growBuffer_readBuf {required : Nat} {moved : Bool}
    (grown : growBuffer config state required moved = some next) :
    next.readBuf = state.readBuf := by
  obtain ⟨_, _, _, _, ⟨_, rfl⟩ | ⟨_, rfl⟩⟩ := growBuffer_eq grown
  · rfl
  · rfl

theorem growBuffer_undisturbed {required : Nat} {moved : Bool}
    (grown : growBuffer config state required moved = some next) : Undisturbed state next := by
  obtain ⟨_, _, _, _, ⟨_, rfl⟩ | ⟨_, rfl⟩⟩ := growBuffer_eq grown
  · exact ⟨rfl, rfl, rfl, rfl, rfl, rfl, rfl, rfl⟩
  · exact ⟨rfl, rfl, rfl, rfl, rfl, rfl, rfl, rfl⟩

theorem refreshBuffer_undisturbed (refreshed : refreshBuffer config state = some next) :
    Undisturbed state next := by
  obtain ⟨_, _, ⟨_, rfl⟩ | ⟨_, rfl⟩⟩ := refreshBuffer_eq refreshed
  · exact ⟨rfl, rfl, rfl, rfl, rfl, rfl, rfl, rfl⟩
  · exact ⟨rfl, rfl, rfl, rfl, rfl, rfl, rfl, rfl⟩

theorem releaseBuffer_undisturbed {address : Nat}
    (released : releaseBuffer state address = some next) :
    Undisturbed state next ∧ next.readBuf = state.readBuf := by
  rcases Option.bind_eq_some_iff.mp released with ⟨buffer, _, released⟩
  split at released
  · cases released
    exact ⟨⟨rfl, rfl, rfl, rfl, rfl, rfl, rfl, rfl⟩, rfl⟩
  · cases released
    exact ⟨⟨rfl, rfl, rfl, rfl, rfl, rfl, rfl, rfl⟩, rfl⟩

theorem refreshBuffer_counted (counted : Counted state) (connected : state.connected = true)
    (refreshed : refreshBuffer config state = some next) : Counted next := by
  obtain ⟨buffer, current, ⟨_, rfl⟩ | ⟨shared, rfl⟩⟩ := refreshBuffer_eq refreshed
  · exact counted
  · have left := counted.recount (buffer.refcount - 1) buffer.size current
    have fresh : state.buffers state.nextAddress = none :=
      (counted.fresh state.nextAddress (Nat.le_refl _)).2
    have own : state.readBuf ≠ state.nextAddress := by
      intro same
      rw [State.current, same, fresh] at current
      cases current
    have unused : state.references state.nextAddress = 0 := by
      by_contra used
      exact counted.held state.nextAddress used fresh
    have allocated : CountedBy _ (allocateBuffer config _) := allocateBuffer_counted left
    have counts : (allocateBuffer config (state.setBuffer state.readBuf
        (some { buffer with refcount := buffer.refcount - 1 }))).references =
        Function.update (Function.update state.references state.readBuf (buffer.refcount - 1))
          state.nextAddress 1 := by
      have count := counted.refcount state.readBuf buffer current
      funext address
      change List.countP (fun transaction => transaction.readBuf = address) state.pending +
        (if state.connected = true ∧ state.nextAddress = address then 1 else 0) = _
      rw [Function.update_apply, Function.update_apply]
      rw [State.references] at unused
      by_cases new : address = state.nextAddress
      · rw [if_pos new, if_pos ⟨connected, new.symm⟩, new]
        omega
      · rw [if_neg new, if_neg fun both => new both.2.symm]
        by_cases old : address = state.readBuf
        · rw [State.references, if_pos ⟨connected, rfl⟩] at count
          rw [if_pos old, count, old]
          rfl
        · rw [if_neg old, State.references, if_neg fun both => old both.2.symm]
    rw [Counted, counts]
    exact allocated

/-- The end of one reference leaves a buffer alone to which there is another one. -/
theorem releaseBuffer_shared {address other : Nat} {before : QueryBuffer}
    (counted : CountedBy references state) (found : state.buffers other = some before)
    (others : other = address → references address ≠ 1)
    (released : releaseBuffer state address = some next) :
    next.blocks before.data = state.blocks before.data ∧
      ∃ after, next.buffers other = some after ∧ after.data = before.data ∧
        after.size = before.size := by
  rcases Option.bind_eq_some_iff.mp released with ⟨buffer, stored, released⟩
  split at released
  · rename_i last
    cases released
    have elsewhere : other ≠ address := fun same =>
      others same ((counted.refcount address buffer stored).symm.trans last)
    refine ⟨?_, before, ?_, rfl, rfl⟩
    · rw [blocks_setBlock, if_neg]
      · rfl
      · exact fun same =>
          elsewhere (counted.distinct other address before buffer found stored same)
    · change (state.setBuffer address none).buffers _ = _
      rw [buffers_setBuffer, if_neg elsewhere]
      exact found
  · cases released
    refine ⟨rfl, ?_⟩
    rw [buffers_setBuffer]
    split
    · rename_i same
      rw [same, stored] at found
      cases found
      exact ⟨_, rfl, rfl, rfl⟩
    · exact ⟨before, found, rfl, rfl⟩

/-- The buffer of the client has another reference than that of a transaction. -/
theorem references_shared {queued : Queued} (member : queued ∈ state.pending)
    (connected : state.connected = true) (own : state.readBuf = queued.readBuf) :
    state.references queued.readBuf ≠ 1 := by
  have another : 0 < state.pending.countP
      fun other => decide (other.readBuf = queued.readBuf) :=
    List.countP_pos_iff.mpr ⟨queued, member, decide_eq_true rfl⟩
  rw [State.references, if_pos ⟨connected, own⟩]
  omega

end Buffers

/-! ## Transactions -/

section Transactions

variable {config : Config} {state next : State}

theorem execute_counted {index : Nat} (counted : Counted state)
    (executed : execute state index = some next) : Counted next := by
  rcases Option.bind_eq_some_iff.mp executed with ⟨transaction, found, released⟩
  obtain ⟨bound, same⟩ := List.getElem?_eq_some_iff.mp found
  have erased := List.getElem_cons_eraseIdx_perm bound
  rw [same] at erased
  have rest : CountedBy state.references
      { state with pending := state.pending.eraseIdx index } := { counted with }
  have after := releaseBuffer_counted rest released
  obtain ⟨kept, readBuf⟩ := releaseBuffer_undisturbed released
  have references : next.references = Function.update state.references transaction.readBuf
      (state.references transaction.readBuf - 1) := by
    funext address
    have count := erased.countP_eq (fun queued => decide (queued.readBuf = address))
    rw [List.countP_cons] at count
    rw [Function.update_apply, State.references, kept.pending, kept.connected, readBuf]
    dsimp only
    by_cases refers : address = transaction.readBuf
    · rw [if_pos (decide_eq_true refers.symm)] at count
      rw [if_pos refers, ← refers, State.references]
      omega
    · rw [if_neg fun decided => refers (of_decide_eq_true decided).symm] at count
      rw [if_neg refers, State.references]
      omega
  rw [Counted, references]
  exact after

theorem disconnect_counted (counted : Counted state)
    (disconnected : disconnect state = some next) : Counted next := by
  rw [disconnect] at disconnected
  split at disconnected
  · rename_i connected
    have rest : CountedBy state.references { state with connected := false } := { counted with }
    have after := releaseBuffer_counted rest disconnected
    obtain ⟨kept, readBuf⟩ := releaseBuffer_undisturbed disconnected
    have references : next.references = Function.update state.references state.readBuf
        (state.references state.readBuf - 1) := by
      funext address
      rw [Function.update_apply, State.references, kept.pending, kept.connected, readBuf,
        if_neg fun both => Bool.false_ne_true both.1]
      split
      · rename_i own
        rw [State.references, if_pos ⟨connected, rfl⟩, own]
        rfl
      · rename_i others
        rw [State.references, if_neg fun both => others both.2.symm]
    rw [Counted, references]
    exact after
  · cases disconnected

theorem addTransaction_counted {command : Command} (counted : Counted state)
    (added : addTransaction state command = some next) : Counted next := by
  rcases Option.bind_eq_some_iff.mp added with ⟨buffer, current, added⟩
  cases added
  have count := counted.refcount state.readBuf buffer current
  have after := counted.recount (buffer.refcount + 1) buffer.size current
  have references : ({ state.setBuffer state.readBuf
      (some { buffer with refcount := buffer.refcount + 1 }) with
        pending := state.pending ++ [⟨command.args, command.data.2, state.readBuf⟩] } :
      State).references =
      Function.update state.references state.readBuf (buffer.refcount + 1) := by
    funext address
    change List.countP _ (state.pending ++ [_]) +
      (if state.connected = true ∧ state.readBuf = address then 1 else 0) = _
    rw [Function.update_apply, List.countP_append, List.countP_cons, List.countP_nil]
    by_cases own : address = state.readBuf
    · rw [if_pos (decide_eq_true own.symm), if_pos own, count, State.references, own]
      omega
    · rw [if_neg fun decided => own (of_decide_eq_true decided).symm, if_neg own,
        State.references]
      omega
  rw [Counted, references]
  exact { after with }

end Transactions

end TellyDB.Server.Reader
