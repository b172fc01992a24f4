import TellyDB.Resp.Frames
import TellyDB.Server.Reader.Pipelining
import TellyDB.Server.Reader.Stability

/-!
Owns what `get_command_data` makes of bytes that are all in the read buffer: it undoes the
encoding of a command, whatever the strings of the command hold and whatever follows them.
-/

namespace TellyDB.Server.Reader

open Resp Lib.Transition

/-- `get_command_data`, from a stage of its parsers on, with what `realloc` does in each of its
takes; `none` when these are too few. It returned true when a command is parsed, and false
when the next thing to parse is the first byte of another one. -/
def getCommandData (config : Config) (state : State) : List Bool → Option State
  | [] => none
  | moved :: rest => do
      let next ← take config state moved
      match next.activity with
      | .parsing .type => some next
      | .parsing _ => getCommandData config next rest
      | _ => some next

section Inside

variable {config : Config} {state : State} {buffer : QueryBuffer} {content : Nat → UInt8}
  {stage : Stage}

/-- A parser takes bytes of the buffer. -/
theorem takeNBytes_inside {n : Nat} (inside : n ≤ state.size - state.position) (moved : Bool) :
    takeNBytes config state n moved =
      some ({ state with position := state.position + n }, some state.position) :=
  if_pos inside

theorem take_more {after : Stage} (parsing : state.activity = .parsing stage)
    (current : state.current = some buffer) (allocated : state.blocks buffer.data = some content)
    (inside : stage.request ≤ state.size - state.position)
    (goesOn : stage.next state.position (state.position + stage.request) state.size
      (some (readRange content ⟨state.position, stage.request⟩)) = .more after) (moved : Bool) :
    take config state moved = some { state with
      position := state.position + stage.request, activity := .parsing after } := by
  rw [State.current] at current
  simp only [take, parsing, takeNBytes_inside inside, Option.bind_eq_bind, Option.bind_some,
    State.current, current, allocated, Option.map_some, Option.getD_some, goesOn]

/-- The command that ranges of a block are. -/
def parsedCommand (block : Nat) (content : Nat → UInt8) (name : Range) (args : List Range) :
    Command where
  name := ⟨block, name⟩
  args := args.map fun argument => ⟨block, argument⟩
  data := (readRange content name, args.map (readRange content))

theorem take_command {name : Range} {args : List Range}
    (parsing : state.activity = .parsing stage) (current : state.current = some buffer)
    (allocated : state.blocks buffer.data = some content)
    (inside : stage.request ≤ state.size - state.position)
    (ends : stage.next state.position (state.position + stage.request) state.size
      (some (readRange content ⟨state.position, stage.request⟩)) = .command name args false)
    (moved : Bool) :
    take config state moved = some { state with
      position := state.position + stage.request
      activity := .parsed (parsedCommand buffer.data content name args) } := by
  rw [State.current] at current
  simp only [take, parsing, takeNBytes_inside inside, Option.bind_eq_bind, Option.bind_some,
    State.current, current, allocated, Option.map_some, Option.getD_some, ends,
    Bool.false_eq_true, if_false, resolve, parsedCommand]

/-- The stages of a command that is in the buffer take it from there, and nothing else. -/
theorem feeds_decoded {name : Range} {args : List Range} {position : Nat} {bytes : Bytes}
    (feeds : Feeds name args stage position bytes) (parsing : state.activity = .parsing stage)
    (begins : state.position = position) (current : state.current = some buffer)
    (allocated : state.blocks buffer.data = some content)
    (inside : position + bytes.length ≤ state.size)
    (holds : readRange content ⟨position, bytes.length⟩ = bytes) :
    ∃ takes, ∀ moves : List Bool, takes ≤ moves.length →
      getCommandData config state moves = some { state with
        position := position + bytes.length
        activity := .parsed (parsedCommand buffer.data content name args) } := by
  induction feeds generalizing state with
  | @last stage position bytes length parsed =>
      subst begins
      refine ⟨1, fun moves enough => ?_⟩
      obtain ⟨moved, rest, rfl⟩ := List.exists_cons_of_length_pos enough
      have ends := parsed state.size
      rw [← holds, readRange_length, length] at ends
      rw [getCommandData, take_command parsing current allocated (by omega) ends, length]
      rfl
  | @more stage after position bytes rest length parsed later inductionHypothesis =>
      subst begins
      obtain ⟨first, others⟩ := readRange_parts holds
      rw [List.length_append] at inside
      have goesOn := parsed state.size
      rw [← first, readRange_length, length] at goesOn
      let reached : State := { state with
        position := state.position + stage.request, activity := .parsing after }
      have stageReached : reached.activity = .parsing after := rfl
      have insideReached : state.position + bytes.length + rest.length ≤ reached.size := by
        change _ ≤ state.size
        omega
      obtain ⟨takes, decoded⟩ := inductionHypothesis stageReached
        (congrArg (state.position + ·) length.symm) current allocated insideReached others
      refine ⟨takes + 1, fun moves enough => ?_⟩
      obtain ⟨moved, moves, rfl⟩ := List.exists_cons_of_length_pos (Nat.lt_of_lt_of_le
        (Nat.succ_pos takes) enough)
      have again := decoded moves (Nat.le_of_succ_le_succ enough)
      rw [getCommandData, take_more parsing current allocated (by omega) goesOn, List.length_append,
        ← Nat.add_assoc]
      cases after with
      | type => exact (Stage.next_ne_type _ _ _ _ _ goesOn).elim
      | _ => exact again

/-- A command that is encoded in the buffer, behind any number of empty lines and in front of
anything, is decoded from there: the position moves behind its encoding, and the buffer, the
size and the socket are as they were. -/
theorem encoded_decoded {command : CommandData} {lines : Nat} {rest : Bytes}
    (parsing : state.activity = .parsing .type) (current : state.current = some buffer)
    (allocated : state.blocks buffer.data = some content) (bounded : state.size ≤ int32Max)
    (holds : readRange content ⟨state.position, state.size - state.position⟩ =
      emptyLines lines ++ encodeCommand command ++ rest) :
    ∃ parsed takes, parsed.data = command ∧ state.read parsed.name = some command.1 ∧
      parsed.args.mapM state.read = some command.2 ∧
      ∀ moves : List Bool, takes ≤ moves.length →
        getCommandData config state moves = some { state with
          position := state.position + 2 * lines + (encodeCommand command).length
          activity := .parsed parsed } := by
  rw [List.append_assoc] at holds
  have length := congrArg List.length holds
  rw [readRange_length] at length
  simp only [List.length_append, length_emptyLines] at length
  have small : int32Max < UInt32.size := by decide
  have fits : command.Fits := encodeCommand_fits (by omega)
  have split : state.size - state.position = (emptyLines lines).length +
      ((encodeCommand command).length + rest.length) := by
    rw [length_emptyLines]
    exact length
  rw [split, readRange_append] at holds
  obtain ⟨leading, behind⟩ := List.append_inj holds (readRange_length ..)
  rw [readRange_append] at behind
  have encoded := (List.append_inj behind (readRange_length ..)).1
  have whole : readRange content ⟨state.position,
      (emptyLines lines ++ encodeCommand command).length⟩ =
        emptyLines lines ++ encodeCommand command := by
    rw [List.length_append, readRange_append, leading, encoded]
  rw [length_emptyLines] at encoded
  have inside : state.position + (emptyLines lines ++ encodeCommand command).length ≤
      state.size := by
    rw [List.length_append, length_emptyLines]
    have := List.length_pos_of_ne_nil (encodeCommand_ne_nil command)
    omega
  cases ranges : commandRanges (state.position + 2 * lines) command with
  | nil => cases ranges
  | cons name args =>
      obtain ⟨takes, decoded⟩ := feeds_decoded (feeds_emptyLines fits lines _ ranges) parsing rfl
        current allocated inside whole
      have data : (parsedCommand buffer.data content name args).data = command :=
        commandRanges_reads ranges encoded
      have ended : state.position + (emptyLines lines ++ encodeCommand command).length =
          state.position + 2 * lines + (encodeCommand command).length := by
        rw [List.length_append, length_emptyLines]
        omega
      rw [ended] at decoded
      refine ⟨_, takes, data, ?_, ?_, decoded⟩
      · rw [← congrArg Prod.fst data]
        exact congrArg (Option.map _) allocated
      · rw [← congrArg Prod.snd data]
        exact mapM_read_pointers args allocated

/-! ## What was decoded -/

/-- The bytes that a parser is about to take are in the buffer. -/
def State.Inside (state : State) : Prop :=
  match state.activity with
  | .parsing stage => stage.request ≤ state.size - state.position
  | _ => True

/-- How many bytes a parser is about to take. -/
def Activity.demand : Activity → Nat
  | .parsing stage => stage.request
  | _ => 0

theorem demand_le_iff (state : State) :
    state.activity.demand ≤ state.size - state.position ↔ state.Inside := by
  rw [State.Inside]
  cases state.activity <;> simp [Activity.demand]

instance (state : State) : Decidable state.Inside := decidable_of_iff _ (demand_le_iff state)

theorem take_inside {next : State} {moved : Bool} (parsing : state.activity = .parsing stage)
    (current : state.current = some buffer) (allocated : state.blocks buffer.data = some content)
    (inside : stage.request ≤ state.size - state.position)
    (took : take config state moved = some next) :
    Continues { state with position := state.position + stage.request }
      (stage.next state.position (state.position + stage.request) state.size
        (some (readRange content ⟨state.position, stage.request⟩))) next := by
  obtain ⟨own, taken, offset, other, otherContent, same, bytes, otherCurrent, otherAllocated,
    continues⟩ := take_eq took
  rw [parsing] at same
  cases same
  rw [takeNBytes_inside inside] at bytes
  cases bytes
  have otherCurrent : state.current = some other := otherCurrent
  rw [current] at otherCurrent
  cases otherCurrent
  have otherAllocated : state.blocks buffer.data = some otherContent := otherAllocated
  rw [allocated] at otherAllocated
  cases otherAllocated
  exact continues

/-- The bytes from the `*` on are a frame of the command, read with literals of 32 bits. -/
def Accepted (command : CommandData) (frame : Frame) (bytes : Bytes) : Prop :=
  frame.bytes = bytes ∧ frame.strings.map Written.string = command.strings ∧
    frame.Counts parsedNumber command.strings.length

/-- A parser behind a `*` that finds its bytes in the buffer fails, or accepts a frame. -/
theorem inside_accepted {next : State} {moves : List Bool} {start : Nat}
    (parsing : state.activity = .parsing stage) (current : state.current = some buffer)
    (allocated : state.blocks buffer.data = some content) (begun : start ≤ state.position)
    (behind : stage.Took (readRange content)
      (readRange content ⟨start, state.position - start⟩))
    (inside : Guarded (take config) (fun state _ => state.Inside) state moves)
    (returned : getCommandData config state moves = some next) :
    next.activity = .parsing .type ∨ ∃ command frame, next.activity = .parsed command ∧
      Accepted command.data frame (readRange content ⟨start, next.position - start⟩) := by
  induction moves generalizing state stage with
  | nil => cases returned
  | cons moved rest inductionHypothesis =>
      have there : state.Inside := inside.1
      rw [State.Inside, parsing] at there
      rw [getCommandData] at returned
      obtain ⟨middle, took, returned⟩ := Option.bind_eq_some_iff.mp returned
      have continues := take_inside parsing current allocated there took
      have taken : (stage.next state.position (state.position + stage.request) state.size
          (some (readRange content ⟨state.position, stage.request⟩))).Took (readRange content)
            (readRange content ⟨start, state.position - start⟩ ++
              readRange content ⟨state.position, stage.request⟩) :=
        Stage.next_took behind (readRange_length ..)
      have whole : readRange content ⟨start, state.position - start⟩ ++
          readRange content ⟨state.position, stage.request⟩ =
            readRange content ⟨start, state.position + stage.request - start⟩ := by
        have parts : state.position + stage.request - start =
            state.position - start + stage.request := by omega
        rw [parts, readRange_append]
        congr 3
        omega
      have onwards := Stage.next_ne_type stage state.position (state.position + stage.request)
        state.size (some (readRange content ⟨state.position, stage.request⟩))
      rw [whole] at taken
      cases parsed : stage.next state.position (state.position + stage.request) state.size
          (some (readRange content ⟨state.position, stage.request⟩)) with
      | more after =>
          rw [parsed] at continues taken onwards
          have later := inside.2 middle took
          cases continues
          let reached : State := { state with
            position := state.position + stage.request, activity := .parsing after }
          have stageReached : reached.activity = .parsing after := rfl
          have begun : start ≤ reached.position := Nat.le_add_right_of_le begun
          have returned : getCommandData config reached rest = some next := by
            cases after with
            | type => exact (onwards rfl).elim
            | _ => exact returned
          exact inductionHypothesis stageReached current allocated begun taken later returned
      | failed =>
          rw [parsed] at continues
          cases continues
          cases returned
          exact .inl rfl
      | command name args inline =>
          rw [parsed] at continues taken
          obtain ⟨rfl, frame, bytes, strings, counts⟩ := taken
          cases continues with
          | command inline ended resolved =>
              cases ended
              rcases Option.bind_eq_some_iff.mp resolved with ⟨other, otherCurrent, resolved⟩
              have otherCurrent : state.current = some other := otherCurrent
              rw [current] at otherCurrent
              cases otherCurrent
              rcases Option.bind_eq_some_iff.mp resolved with ⟨kept, otherAllocated, resolved⟩
              have otherAllocated : state.blocks buffer.data = some kept := otherAllocated
              rw [allocated] at otherAllocated
              cases otherAllocated
              cases resolved
              cases returned
              refine .inr ⟨_, frame, rfl, bytes, strings, ?_⟩
              rw [← List.length_map (readRange content)] at counts
              exact counts
      | overflow =>
          rw [parsed] at taken
          exact taken.elim

/-- When `parse_resp_command`, called for a `*`, returns true without reading from the socket,
the bytes it took are a frame of the command. Its literals denote the number of its strings and
their lengths exactly when all of them are below 2^32. -/
theorem frame_sound_iff {next : State} {moves : List Bool} {command : Command}
    (parsing : state.activity = .parsing stage) (opens : stage = .type ∨ stage = .leadingCr)
    (current : state.current = some buffer) (allocated : state.blocks buffer.data = some content)
    (star : content state.position = 0x2a)
    (inside : Guarded (take config) (fun state _ => state.Inside) state moves)
    (returned : getCommandData config state moves = some next)
    (parsed : next.activity = .parsed command) :
    ∃ frame, Accepted command.data frame
        (readRange content ⟨state.position, next.position - state.position⟩) ∧
      (Declares literalValue command.data.strings
          (readRange content ⟨state.position, next.position - state.position⟩) ↔
        ∀ literal ∈ frame.literals, literalValue literal < UInt32.size) := by
  have byte : readRange content ⟨state.position, 1⟩ = [0x2a] := by
    rw [← star]
    rfl
  have one : stage.request = 1 := by
    rcases opens with rfl | rfl <;> rfl
  have array : stage.next state.position (state.position + stage.request) state.size
      (some (readRange content ⟨state.position, stage.request⟩)) = .more (.count none) := by
    rw [one, byte]
    rcases opens with rfl | rfl <;> rfl
  cases moves with
  | nil => cases returned
  | cons moved rest =>
      have there : state.Inside := inside.1
      rw [State.Inside, parsing] at there
      let reached : State := { state with
        position := state.position + stage.request, activity := .parsing (.count none) }
      have took : take config state moved = some reached :=
        take_more parsing current allocated there array moved
      rw [getCommandData, took] at returned
      have stageReached : reached.activity = .parsing (.count none) := rfl
      have behind : (Stage.count none).Took (readRange content)
          (readRange content ⟨state.position, reached.position - state.position⟩) := by
        have width : reached.position - state.position = 1 := by
          change state.position + stage.request - state.position = 1
          omega
        rw [width]
        exact byte
      rcases inside_accepted stageReached current allocated (Nat.le_add_right ..) behind
        (inside.2 reached took) returned with failed | ⟨other, frame, same, accepted⟩
      · rw [parsed] at failed
        cases failed
      · rw [parsed] at same
        cases same
        refine ⟨frame, accepted, ?_⟩
        rw [← accepted.1]
        exact declares_iff accepted.2.1 accepted.2.2

end Inside

/-! ## Buffers on fixed input -/

/-- A client with bytes in its read buffer, and nothing in its socket. -/
def buffered (bytes : Bytes) : State where
  blocks := Function.update (fun _ => none) 0 (some (writeBytes (fun _ => 0) 0 bytes))
  buffers := Function.update (fun _ => none) 0 (some ⟨0, respBufSize, 1⟩)
  nextAddress := 1
  readBuf := 0
  connected := true
  ssl := false
  locked := false
  closing := false
  socket := []
  activity := .parsing .type
  position := 0
  size := bytes.length
  pending := []
  handed := []

/-- A name that holds what could be protocol, behind an empty line and in front of the start of
another command. -/
theorem encoded_decoded_crowded : ∃ parsed takes,
    parsed.data = (text "$\r\n*", []) ∧
      (buffered (text "\r\n*1\r\n$4\r\n$\r\n*\r\n*1\r\n")).read parsed.name =
        some (text "$\r\n*") ∧
      parsed.args.mapM (buffered (text "\r\n*1\r\n$4\r\n$\r\n*\r\n*1\r\n")).read = some [] ∧
      ∀ moves : List Bool, takes ≤ moves.length →
        getCommandData pingConfig (buffered (text "\r\n*1\r\n$4\r\n$\r\n*\r\n*1\r\n")) moves =
          some { buffered (text "\r\n*1\r\n$4\r\n$\r\n*\r\n*1\r\n") with
            position := 0 + 2 * 1 + (encodeCommand (text "$\r\n*", [])).length
            activity := .parsed parsed } :=
  encoded_decoded rfl rfl rfl (by decide)
    (show _ = emptyLines 1 ++ encodeCommand (text "$\r\n*", []) ++ text "*1\r\n" by
      decide +kernel)

/-- The command that is parsed, and the position behind it. -/
def State.decoded (state : State) : Option (CommandData × Nat) :=
  match state.activity with
  | .parsed command => some (command.data, state.position)
  | _ => none

theorem decoded_eq {state : State} {data : CommandData} {position : Nat}
    (decoded : state.decoded = some (data, position)) :
    state.position = position ∧ ∃ command, state.activity = .parsed command ∧ command.data = data := by
  rw [State.decoded] at decoded
  split at decoded
  · rename_i command parsed
    cases decoded
    exact ⟨rfl, command, parsed, rfl⟩
  · cases decoded

theorem frame_sound_ping : ∃ (next : State) (command : Command) (frame : Frame),
    getCommandData pingConfig (buffered (encodeCommand ping)) (List.replicate 10 false) =
        some next ∧ next.activity = .parsed command ∧
      Accepted command.data frame
        (readRange (writeBytes (fun _ => 0) 0 (encodeCommand ping)) ⟨0, next.position - 0⟩) ∧
      (Declares literalValue command.data.strings
          (readRange (writeBytes (fun _ => 0) 0 (encodeCommand ping)) ⟨0, next.position - 0⟩) ↔
        ∀ literal ∈ frame.literals, literalValue literal < UInt32.size) := by
  have reached : (getCommandData pingConfig (buffered (encodeCommand ping))
      (List.replicate 10 false)).bind State.decoded = some (ping, 14) := by decide +kernel
  obtain ⟨next, returned, decoded⟩ := Option.bind_eq_some_iff.mp reached
  obtain ⟨_, command, parsed, _⟩ := decoded_eq decoded
  obtain ⟨frame, sound⟩ := frame_sound_iff rfl (.inl rfl) rfl rfl rfl
    (by decide +kernel) returned parsed
  exact ⟨next, command, frame, returned, parsed, sound⟩

/-- A count of 2^32 + 1, which the parser takes for 1. -/
def wrappedFrame : Frame := ⟨text "4294967297", [⟨text "4", text "PING"⟩]⟩

theorem frame_sound_fails_when_wrapped : ¬ ∀ (moves : List Bool) (next : State) (command : Command),
    Guarded (take pingConfig) (fun state _ => state.Inside) (buffered wrappedFrame.bytes) moves →
    getCommandData pingConfig (buffered wrappedFrame.bytes) moves = some next →
    next.activity = .parsed command →
    Declares literalValue command.data.strings
      (readRange (writeBytes (fun _ => 0) 0 wrappedFrame.bytes) ⟨0, next.position⟩) := by
  intro always
  have reached : (getCommandData pingConfig (buffered wrappedFrame.bytes)
      (List.replicate 19 false)).bind State.decoded = some (ping, 23) := by decide +kernel
  obtain ⟨next, returned, decoded⟩ := Option.bind_eq_some_iff.mp reached
  obtain ⟨position, command, parsed, data⟩ := decoded_eq decoded
  have declares := always _ next command (by decide +kernel) returned parsed
  have bytes : readRange (writeBytes (fun _ => 0) 0 wrappedFrame.bytes) ⟨0, 23⟩ =
      wrappedFrame.bytes := by decide +kernel
  have strings : wrappedFrame.strings.map Written.string = ping.strings := by decide +kernel
  have counts : wrappedFrame.Counts parsedNumber ping.strings.length := by
    refine ⟨fun literal member => ⟨?_, ?_⟩, by decide +kernel, by decide +kernel⟩
    · revert literal
      decide +kernel
    · revert literal
      decide +kernel
  rw [position, data, bytes, declares_iff strings counts] at declares
  revert declares
  decide +kernel

end TellyDB.Server.Reader
