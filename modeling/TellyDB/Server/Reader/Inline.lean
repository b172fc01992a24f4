import TellyDB.Resp.Inline
import TellyDB.Server.Reader.Decoding

/-!
Owns what `get_command_data` makes of an inline command whose bytes are in the read buffer: the
parser looks for the end of the data, and not for the end of the line.
-/

namespace TellyDB.Server.Reader

open Resp

/-! ## The parsers of inline commands -/

/-- A parser takes the data from a position on to its end, and makes this of it, unless it
overflows before. -/
inductive Exhausts (content : Nat → UInt8) (size : Nat) : Parsed → Nat → Parsed → Prop where
  | failed : Exhausts content size .failed size .failed
  | command (name : Range) (args : List Range) :
      Exhausts content size (.command name args true) size (.command name args true)
  | overflow (position : Nat) : Exhausts content size .overflow position .overflow
  | more {stage : Stage} {position : Nat} {final : Parsed}
      (inside : position + stage.request ≤ size)
      (later : Exhausts content size
        (stage.next position (position + stage.request) size
          (some (readRange content ⟨position, stage.request⟩)))
        (position + stage.request) final) :
      Exhausts content size (.more stage) position final

namespace Exhausts

variable {content : Nat → UInt8} {size position : Nat} {final : Parsed}

theorem of_failed (exhausts : Exhausts content size .failed position final) :
    position = size ∧ final = .failed := by
  cases exhausts
  exact ⟨rfl, rfl⟩

theorem of_command {name : Range} {args : List Range} {inline : Bool}
    (exhausts : Exhausts content size (.command name args inline) position final) :
    inline = true ∧ position = size ∧ final = .command name args true := by
  cases exhausts
  exact ⟨rfl, rfl, rfl⟩

theorem of_overflow (exhausts : Exhausts content size .overflow position final) :
    final = .overflow := by
  cases exhausts
  rfl

end Exhausts

/-- What becomes of a name and of arguments in front of the last two bytes. -/
def inlineParsed (ends : Bytes) (ranges : Range × List Range) : Parsed :=
  if respInlineArgumentCount < ranges.2.length then .overflow
  else if ends = crlf then .command ranges.1 ranges.2 true
  else .failed

/-- `parse_arguments` in front of an argument, or in one. -/
def argumentStage (name : Range) (args : List Range) : Option Range → Stage
  | none => .inlineArgument name args
  | some argument => .inlineRest name args argument

section Parsers

variable {content : Nat → UInt8} {name : Range} {args : List Range} {ended : Nat}

/-- The bytes from the first one on. -/
theorem readRange_cons {position : Nat} {byte : UInt8} {rest : Bytes}
    (here : readRange content ⟨position, (byte :: rest).length⟩ = byte :: rest) :
    readRange content ⟨position, 1⟩ = [byte] ∧
      readRange content ⟨position + 1, rest.length⟩ = rest :=
  @readRange_parts content position [byte] rest here

theorem inlineParsed_of_le {ends : Bytes} (few : args.length ≤ respInlineArgumentCount) :
    inlineParsed ends (name, args) =
      if ends = crlf then .command name args true else .failed :=
  if_neg (Nat.not_lt.mpr few)

theorem exhausts_argumentsEnd (few : args.length ≤ respInlineArgumentCount) :
    Exhausts content (ended + 2) (.more (.inlineArgumentEnd name args)) ended
      (inlineParsed (readRange content ⟨ended, 2⟩) (name, args)) := by
  apply Exhausts.more (Nat.le_refl (ended + 2))
  rw [inlineParsed_of_le few]
  show Exhausts content (ended + 2)
    (if readRange content ⟨ended, 2⟩ = crlf then .command name args true else .failed) (ended + 2) _
  by_cases line : readRange content ⟨ended, 2⟩ = crlf
  · rw [if_pos line]
    exact .command name args
  · rw [if_neg line]
    exact .failed

theorem exhausts_nameEnd : Exhausts content (ended + 2) (.more (.inlineNameEnd name)) ended
    (inlineParsed (readRange content ⟨ended, 2⟩) (name, [])) := by
  apply Exhausts.more (Nat.le_refl (ended + 2))
  rw [inlineParsed_of_le (Nat.zero_le _)]
  show Exhausts content (ended + 2) (if readRange content ⟨ended, 2⟩ = crlf then
    nameParsed name (ended + 2) (ended + 2) else .failed) (ended + 2) _
  by_cases line : readRange content ⟨ended, 2⟩ = crlf
  · rw [if_pos line, if_pos line, nameParsed, if_pos rfl]
    exact .command name []
  · rw [if_neg line, if_neg line]
    exact .failed

theorem parseArgument_of_ne {argument : Range} {byte : UInt8} {position size : Nat}
    (plain : byte ≠ 0x20) : parseArgument name args argument byte position size =
      if position + 2 = size then argumentEnded name args argument position size
      else .more (.inlineRest name args argument) := by
  rw [parseArgument]
  simp only [plain, false_or]

/-- Behind an argument comes the end of the data, or another argument. -/
theorem exhausts_argumentEnded {argument : Range} {position : Nat} {rest : Bytes}
    (ends : position + rest.length = ended) (few : args.length < respInlineArgumentCount)
    (others : rest ≠ [] → ∀ args : List Range, args.length < respInlineArgumentCount →
      Exhausts content (ended + 2) (.more (.inlineArgument name args)) position
        (inlineParsed (readRange content ⟨ended, 2⟩)
          (name, args ++ argumentRanges none position rest))) :
    Exhausts content (ended + 2) (argumentEnded name args argument position (ended + 2)) position
      (inlineParsed (readRange content ⟨ended, 2⟩)
        (name, args ++ argument :: argumentRanges none position rest)) := by
  have longer : (args ++ [argument]).length = args.length + 1 := List.length_append
  rw [List.append_cons, argumentEnded]
  by_cases last : rest = []
  · subst last
    obtain rfl : position = ended := ends
    rw [if_pos rfl, argumentRanges, Option.toList_none, List.append_nil]
    exact exhausts_argumentsEnd (by omega)
  · have positive := List.length_pos_of_ne_nil last
    rw [if_neg (by omega)]
    split
    · next full =>
        have count := length_argumentRanges none position rest fun _ => last
        have overflows : inlineParsed (readRange content ⟨ended, 2⟩)
            (name, args ++ [argument] ++ argumentRanges none position rest) = .overflow := by
          apply if_pos
          rw [List.length_append, count]
          omega
        rw [overflows]
        exact .overflow position
    · next room => exact others last _ (by omega)

/-- The arguments up to the last two bytes. -/
theorem exhausts_arguments (current : Option Range) {position : Nat} {bytes : Bytes}
    (some_ : bytes ≠ []) (here : readRange content ⟨position, bytes.length⟩ = bytes)
    (ends : position + bytes.length = ended) (few : args.length < respInlineArgumentCount) :
    Exhausts content (ended + 2) (.more (argumentStage name args current)) position
      (inlineParsed (readRange content ⟨ended, 2⟩)
        (name, args ++ argumentRanges current position bytes)) := by
  induction bytes generalizing current position args with
  | nil => exact absurd rfl some_
  | cons byte rest inductionHypothesis =>
      obtain ⟨first, later⟩ := readRange_cons here
      rw [List.length_cons] at ends
      have behind : position + 1 + rest.length = ended := by omega
      have others : rest ≠ [] → ∀ args : List Range, args.length < respInlineArgumentCount →
          Exhausts content (ended + 2) (.more (.inlineArgument name args)) (position + 1)
            (inlineParsed (readRange content ⟨ended, 2⟩)
              (name, args ++ argumentRanges none (position + 1) rest)) :=
        fun more args few => inductionHypothesis none more later behind few
      have goesOn : ∀ argument : Range, Exhausts content (ended + 2)
          (if position + 1 + 2 = ended + 2 then
            argumentEnded name args argument (position + 1) (ended + 2)
          else .more (.inlineRest name args argument)) (position + 1)
            (inlineParsed (readRange content ⟨ended, 2⟩)
              (name, args ++ argumentRanges (some argument) (position + 1) rest)) := by
        intro argument
        by_cases last : rest = []
        · subst last
          rw [if_pos (by rw [List.length_nil] at behind; omega)]
          exact exhausts_argumentEnded behind few others
        · have positive := List.length_pos_of_ne_nil last
          rw [if_neg (by omega)]
          exact inductionHypothesis (some argument) last later behind few
      have inside : position + 1 ≤ ended + 2 := by omega
      cases current with
      | none =>
          apply Exhausts.more inside
          show Exhausts content (ended + 2) (Stage.next (.inlineArgument name args) position
            (position + 1) (ended + 2) (some (readRange content ⟨position, 1⟩))) (position + 1) _
          rw [first]
          show Exhausts content (ended + 2)
            (parseArgument name args ⟨position, 1⟩ byte (position + 1) (ended + 2)) (position + 1) _
          by_cases space : byte = 0x20
          · rw [parseArgument, if_pos (.inl space), argumentRanges, if_pos space]
            exact exhausts_argumentEnded behind few others
          · rw [parseArgument_of_ne space, argumentRanges, if_neg space]
            exact goesOn _
      | some argument =>
          apply Exhausts.more inside
          show Exhausts content (ended + 2) (Stage.next (.inlineRest name args argument) position
            (position + 1) (ended + 2) (some (readRange content ⟨position, 1⟩))) (position + 1) _
          rw [first]
          show Exhausts content (ended + 2)
            (if byte = 0x20 then argumentEnded name args argument (position + 1) (ended + 2)
              else parseArgument name args { argument with length := argument.length + 1 } byte
                (position + 1) (ended + 2)) (position + 1) _
          by_cases space : byte = 0x20
          · rw [if_pos space, argumentRanges, if_pos space]
            exact exhausts_argumentEnded behind few others
          · rw [if_neg space, parseArgument_of_ne space, argumentRanges, if_neg space]
            exact goesOn _

/-- The name and the arguments up to the last two bytes. -/
theorem exhausts_name {position : Nat} {bytes : Bytes}
    (here : readRange content ⟨position, bytes.length⟩ = bytes)
    (ends : position + bytes.length = ended) :
    Exhausts content (ended + 2) (parseName name position (ended + 2)) position
      (inlineParsed (readRange content ⟨ended, 2⟩) (inlineRanges name position bytes)) := by
  induction bytes generalizing name position with
  | nil =>
      obtain rfl : position = ended := ends
      rw [parseName, if_pos rfl, inlineRanges]
      exact exhausts_nameEnd
  | cons byte rest inductionHypothesis =>
      obtain ⟨first, later⟩ := readRange_cons here
      rw [List.length_cons] at ends
      have behind : position + 1 + rest.length = ended := by omega
      have inside : position + 1 ≤ ended + 2 := by omega
      rw [parseName, if_neg (by omega)]
      apply Exhausts.more inside
      show Exhausts content (ended + 2) (Stage.next (.inlineName name) position
        (position + 1) (ended + 2) (some (readRange content ⟨position, 1⟩))) (position + 1) _
      rw [first]
      show Exhausts content (ended + 2)
        (if byte = 0x20 then nameEnded name (position + 1) (ended + 2)
          else parseName { name with length := name.length + 1 } (position + 1) (ended + 2))
        (position + 1) _
      by_cases space : byte = 0x20
      · rw [if_pos space, inlineRanges, if_pos space]
        by_cases last : rest = []
        · subst last
          obtain rfl : position + 1 = ended := behind
          rw [nameEnded, if_pos rfl]
          exact exhausts_nameEnd
        · have positive := List.length_pos_of_ne_nil last
          rw [nameEnded, if_neg (by omega), nameParsed, if_neg (by omega)]
          exact exhausts_arguments none last later behind (by decide)
      · rw [if_neg space, inlineRanges, if_neg space]
        exact inductionHypothesis later behind

/-- An alphanumeric byte opens a name. -/
theorem next_alnum {stage : Stage} {byte : UInt8} {offset position size : Nat}
    (opens : stage = .type ∨ stage = .leadingCr) (alnum : isAlnum byte = true) :
    stage.next offset position size (some [byte]) = parseName ⟨offset, 1⟩ position size := by
  have noArray : byte ≠ 0x2a := by
    rintro rfl
    exact absurd alnum (by decide)
  have noCr : byte ≠ 0x0d := by
    rintro rfl
    exact absurd alnum (by decide)
  have parsed : ∀ rest, parseCommand byte offset position size rest =
      parseName ⟨offset, 1⟩ position size := by
    intro rest
    rw [parseCommand, if_neg noArray, if_pos alnum]
  rcases opens with rfl | rfl
  · exact parsed _
  · show (if byte = 0x0d then _ else _) = _
    rw [if_neg noCr]
    exact parsed _

theorem exhausts_inline {stage : Stage} {position : Nat} {byte : UInt8} {bytes : Bytes}
    (opens : stage = .type ∨ stage = .leadingCr) (alnum : isAlnum byte = true)
    (here : readRange content ⟨position, (byte :: bytes).length⟩ = byte :: bytes)
    (ends : position + 1 + bytes.length = ended) :
    Exhausts content (ended + 2) (.more stage) position
      (inlineParsed (readRange content ⟨ended, 2⟩)
        (inlineRanges ⟨position, 1⟩ (position + 1) bytes)) := by
  obtain ⟨first, later⟩ := readRange_cons here
  have one : stage.request = 1 := by
    rcases opens with rfl | rfl <;> rfl
  apply Exhausts.more
  · omega
  · rw [one, first, next_alnum opens alnum]
    exact exhausts_name later ends

/-- The strings end in front of the last two bytes. -/
theorem inlineParsed_behind {ends bytes : Bytes} {position : Nat} {name : Range}
    (before : name.behind = position) :
    ∀ first others, inlineParsed ends (inlineRanges name position bytes) =
        .command first others true →
      ∀ range ∈ first :: others, range.behind ≤ position + bytes.length := by
  intro first others parsed
  rw [inlineParsed] at parsed
  split at parsed
  · cases parsed
  · split at parsed
    · cases parsed
      exact inlineRanges_behind before
    · cases parsed

end Parsers

/-! ## The strings of a line -/

/-- The content with a NUL behind each string. -/
def terminated (content : Nat → UInt8) : List Range → Nat → UInt8
  | [] => content
  | range :: rest => terminated (writeBytes content range.behind [0]) rest

section Strings

variable {content : Nat → UInt8}

theorem readRange_mem {range : Range} {index : Nat} (inside : index < range.length) :
    content (range.offset + index) ∈ readRange content range :=
  List.mem_map.mpr ⟨index, List.mem_range.mpr inside, rfl⟩

/-- Each string of a line is read from its range, and a space or a CR is behind it. -/
theorem readRange_spacedRanges {offset : Nat} {token : Bytes} {rest : List Bytes}
    (here : readRange content ⟨offset, (token ++ (spaced rest ++ [0x0d])).length⟩ =
      token ++ (spaced rest ++ [0x0d])) :
    (spacedRanges offset (token :: rest)).map (readRange content) = token :: rest ∧
      ∀ range ∈ spacedRanges offset (token :: rest),
        content range.behind = 0x20 ∨ content range.behind = 0x0d := by
  induction rest generalizing offset token with
  | nil =>
      obtain ⟨read, behind⟩ := readRange_parts here
      have ends : content (offset + token.length) = 0x0d := (List.cons.inj behind).1
      refine ⟨congrArg (· :: []) read, ?_⟩
      intro range member
      rw [List.mem_singleton.mp member]
      exact .inr ends
  | cons next rest inductionHypothesis =>
      obtain ⟨read, behind⟩ := readRange_parts here
      rw [spaced_cons, List.cons_append, List.append_assoc] at behind
      obtain ⟨space, later⟩ := readRange_cons behind
      obtain ⟨others, ends⟩ := inductionHypothesis later
      have separates : content (offset + token.length) = 0x20 := (List.cons.inj space).1
      refine ⟨?_, List.forall_mem_cons.mpr ⟨.inl separates, ends⟩⟩
      rw [spacedRanges, List.map_cons, read, others]

/-- A NUL changes one byte. -/
theorem terminated_of_ne {ranges : List Range} {index : Nat}
    (apart : ∀ range ∈ ranges, range.behind ≠ index) :
    terminated content ranges index = content index := by
  induction ranges generalizing content with
  | nil => rfl
  | cons range rest inductionHypothesis =>
      obtain ⟨other, others⟩ := List.forall_mem_cons.mp apart
      rw [terminated, inductionHypothesis others, writeBytes]
      split
      · have outside : [(0 : UInt8)][index - range.behind]? = none := by
          rw [List.getElem?_eq_none_iff, List.length_singleton]
          omega
        rw [outside]
        rfl
      · rfl

/-- The NULs leave the strings of a line as they are. -/
theorem readRange_terminated {offset : Nat} {tokens : List Bytes}
    (plain : ∀ token ∈ tokens, IsToken token)
    (read : (spacedRanges offset tokens).map (readRange content) = tokens)
    (behind : ∀ range ∈ spacedRanges offset tokens,
      content range.behind = 0x20 ∨ content range.behind = 0x0d) :
    (spacedRanges offset tokens).map
      (readRange (terminated content (spacedRanges offset tokens))) = tokens := by
  have same : ∀ range ∈ spacedRanges offset tokens,
      readRange (terminated content (spacedRanges offset tokens)) range =
        readRange content range := by
    intro range member
    apply readRange_congr
    intro index within
    apply terminated_of_ne
    intro other otherMember same
    have token : readRange content range ∈ tokens := by
      rw [← read]
      exact List.mem_map_of_mem member
    have bytes := (plain _ token).2 _ (readRange_mem within)
    rw [← same] at bytes
    rcases behind other otherMember with space | cr
    · exact bytes.1 space
    · exact bytes.2.1 cr
  rw [List.map_congr_left same, read]

end Strings

/-! ## Calls -/

/-- What a call returns that took all of the data. -/
def State.exhausted (state : State) (buffer : QueryBuffer) (content : Nat → UInt8) :
    Parsed → Option State
  | .command name args _ => some { state with
      blocks := Function.update state.blocks buffer.data
        (some (terminated content (name :: args)))
      position := state.size
      activity := .parsed
        (parsedCommand buffer.data (terminated content (name :: args)) name args) }
  | .failed => some { state with position := state.size, activity := .parsing .type }
  | .more _ | .overflow => none

section Calls

variable {config : Config} {state : State} {buffer : QueryBuffer} {content : Nat → UInt8}
  {stage : Stage}

theorem terminateStrings_eq {ranges : List Range} (current : state.current = some buffer)
    (allocated : state.blocks buffer.data = some content)
    (behind : ∀ range ∈ ranges, range.behind < buffer.size) :
    terminateStrings state ranges = some { state with
      blocks := Function.update state.blocks buffer.data (some (terminated content ranges)) } := by
  induction ranges generalizing state content with
  | nil =>
      rw [terminated, ← allocated, Function.update_eq_self]
      rfl
  | cons range rest inductionHypothesis =>
      obtain ⟨inside, others⟩ := List.forall_mem_cons.mp behind
      let written : State := state.setBlock buffer.data
        (some (writeBytes content range.behind [0]))
      have first : terminateString state range = some written := by
        rw [Range.behind] at inside
        simp only [terminateString, current, allocated, Option.bind_eq_bind, Option.bind_some,
          if_pos inside]
        rfl
      have held : written.blocks buffer.data = some (writeBytes content range.behind [0]) :=
        Function.update_self ..
      have currentWritten : written.current = some buffer := current
      have later := inductionHypothesis currentWritten held others
      rw [terminateStrings, first, Option.bind_eq_bind, Option.bind_some, later]
      simp only [written, State.setBlock, Function.update_idem]
      rfl

theorem take_inline {name : Range} {args : List Range}
    (parsing : state.activity = .parsing stage) (current : state.current = some buffer)
    (allocated : state.blocks buffer.data = some content)
    (inside : stage.request ≤ state.size - state.position)
    (ends : stage.next state.position (state.position + stage.request) state.size
      (some (readRange content ⟨state.position, stage.request⟩)) = .command name args true)
    (behind : ∀ range ∈ name :: args, range.behind < buffer.size) (moved : Bool) :
    take config state moved = some { state with
      blocks := Function.update state.blocks buffer.data
        (some (terminated content (name :: args)))
      position := state.position + stage.request
      activity := .parsed
        (parsedCommand buffer.data (terminated content (name :: args)) name args) } := by
  let reached : State := { state with
    position := state.position + stage.request, activity := .parsing stage }
  have currentReached : reached.current = some buffer := current
  have terminates : terminateStrings reached (name :: args) = some { reached with
      blocks := Function.update state.blocks buffer.data
        (some (terminated content (name :: args))) } :=
    terminateStrings_eq currentReached allocated behind
  rw [State.current] at current
  simp only [take, parsing, takeNBytes_inside inside, Option.bind_eq_bind, Option.bind_some,
    State.current, current, allocated, Option.map_some, Option.getD_some, ends, if_true]
  rw [terminates]
  simp only [Option.bind_some, resolve, State.current, reached, current, Function.update_self,
    Option.bind_eq_bind, parsedCommand]

theorem take_failed (parsing : state.activity = .parsing stage)
    (current : state.current = some buffer) (allocated : state.blocks buffer.data = some content)
    (inside : stage.request ≤ state.size - state.position)
    (ends : stage.next state.position (state.position + stage.request) state.size
      (some (readRange content ⟨state.position, stage.request⟩)) = .failed) (moved : Bool) :
    take config state moved = some { state with
      position := state.position + stage.request, activity := .parsing .type } := by
  rw [State.current] at current
  simp only [take, parsing, takeNBytes_inside inside, Option.bind_eq_bind, Option.bind_some,
    State.current, current, allocated, Option.map_some, Option.getD_some, ends]

theorem take_overflow (parsing : state.activity = .parsing stage)
    (current : state.current = some buffer) (allocated : state.blocks buffer.data = some content)
    (inside : stage.request ≤ state.size - state.position)
    (ends : stage.next state.position (state.position + stage.request) state.size
      (some (readRange content ⟨state.position, stage.request⟩)) = .overflow) (moved : Bool) :
    take config state moved = none := by
  rw [State.current] at current
  simp only [take, parsing, takeNBytes_inside inside, Option.bind_eq_bind, Option.bind_some,
    State.current, current, allocated, Option.map_some, Option.getD_some, ends]

/-- Whatever is made of all of the data is what the call returns. -/
theorem Exhausts.returned {size position : Nat} {parsed final : Parsed}
    (exhausts : Exhausts content size parsed position final) (same : parsed = .more stage)
    (sized : state.size = size) (parsing : state.activity = .parsing stage)
    (begins : state.position = position) (current : state.current = some buffer)
    (allocated : state.blocks buffer.data = some content)
    (behind : ∀ name args, final = .command name args true →
      ∀ range ∈ name :: args, range.behind < buffer.size) :
    ∃ takes, ∀ moves : List Bool, takes ≤ moves.length →
      getCommandData config state moves = state.exhausted buffer content final := by
  induction exhausts generalizing state stage with
  | failed => cases same
  | command name args => cases same
  | overflow position => cases same
  | @more stage position final inside later inductionHypothesis =>
      cases same
      subst sized begins
      have there : stage.request ≤ state.size - state.position := by omega
      cases parsed : stage.next state.position (state.position + stage.request) state.size
          (some (readRange content ⟨state.position, stage.request⟩)) with
      | more after =>
          let reached : State := { state with
            position := state.position + stage.request, activity := .parsing after }
          have sizeReached : reached.size = state.size := rfl
          have stageReached : reached.activity = .parsing after := rfl
          obtain ⟨takes, returned⟩ := inductionHypothesis parsed sizeReached stageReached rfl
            current allocated behind
          refine ⟨takes + 1, fun moves enough => ?_⟩
          obtain ⟨moved, moves, rfl⟩ := List.exists_cons_of_length_pos (Nat.lt_of_lt_of_le
            (Nat.succ_pos takes) enough)
          have again := returned moves (Nat.le_of_succ_le_succ enough)
          rw [getCommandData, take_more parsing current allocated there parsed]
          cases after with
          | type => exact (Stage.next_ne_type _ _ _ _ _ parsed).elim
          | _ => cases final <;> exact again
      | failed =>
          rw [parsed] at later
          obtain ⟨ended, rfl⟩ := later.of_failed
          refine ⟨1, fun moves enough => ?_⟩
          obtain ⟨moved, moves, rfl⟩ := List.exists_cons_of_length_pos enough
          rw [getCommandData, take_failed parsing current allocated there parsed, ended]
          rfl
      | command name args inline =>
          rw [parsed] at later
          obtain ⟨rfl, ended, rfl⟩ := later.of_command
          refine ⟨1, fun moves enough => ?_⟩
          obtain ⟨moved, moves, rfl⟩ := List.exists_cons_of_length_pos enough
          rw [getCommandData, take_inline parsing current allocated there parsed
            (behind name args rfl), ended]
          rfl
      | overflow =>
          rw [parsed] at later
          obtain rfl := later.of_overflow
          refine ⟨1, fun moves enough => ?_⟩
          obtain ⟨moved, moves, rfl⟩ := List.exists_cons_of_length_pos enough
          rw [getCommandData, take_overflow parsing current allocated there parsed]
          rfl

/-! ## Lines -/

/-- Successive calls return the lines in their order, each with its bytes and not more. -/
def ReturnsLines (config : Config) : State → List InlineLine → Prop
  | _, [] => True
  | state, line :: rest => ∃ takes parsed next,
      (∀ moves : List Bool, takes ≤ moves.length →
        getCommandData config state moves = some next) ∧
      next.activity = .parsed parsed ∧ parsed.data = line.command ∧
      next.read parsed.name = some line.name ∧ parsed.args.mapM next.read = some line.args ∧
      next.position = state.position + line.bytes.length ∧
      ReturnsLines config { next with activity := .parsing .type } rest

/-- What is made of data that starts with an alphanumeric byte and has two bytes more. -/
theorem inline_returned {byte : UInt8} {bytes ends : Bytes} (alnum : isAlnum byte = true)
    (parsing : state.activity = .parsing .type) (current : state.current = some buffer)
    (allocated : state.blocks buffer.data = some content) (room : state.size ≤ buffer.size)
    (two : ends.length = 2)
    (holds : readRange content ⟨state.position, state.size - state.position⟩ =
      byte :: (bytes ++ ends)) :
    ∃ takes, ∀ moves : List Bool, takes ≤ moves.length →
      getCommandData config state moves = state.exhausted buffer content
        (inlineParsed ends (inlineRanges ⟨state.position, 1⟩ (state.position + 1) bytes)) := by
  have length := congrArg List.length holds
  rw [readRange_length, List.length_cons, List.length_append, two] at length
  have sized : state.size = state.position + 1 + bytes.length + 2 := by
    change state.size - state.position = _ at length
    omega
  have whole : state.size - state.position = ((byte :: bytes) ++ ends).length := by
    rw [List.length_append, List.length_cons, two]
    omega
  rw [whole, ← List.cons_append] at holds
  obtain ⟨front, behind⟩ := readRange_parts holds
  rw [List.length_cons, two] at behind
  have place : state.position + (bytes.length + 1) = state.position + 1 + bytes.length := by omega
  rw [place] at behind
  have exhausts := exhausts_inline (.inl rfl) alnum front rfl
  rw [behind] at exhausts
  apply exhausts.returned rfl sized parsing rfl current allocated
  intro first others parsed range member
  have begins : (⟨state.position, 1⟩ : Range).behind = state.position + 1 := rfl
  have inside := inlineParsed_behind begins first others parsed range member
  omega

theorem returned_unique {first second : Nat} {one other : Option State}
    (returnsOne : ∀ moves : List Bool, first ≤ moves.length →
      getCommandData config state moves = one)
    (returnsOther : ∀ moves : List Bool, second ≤ moves.length →
      getCommandData config state moves = other) : one = other := by
  have enough : (List.replicate (first + second) false).length = first + second :=
    List.length_replicate
  rw [← returnsOne (List.replicate (first + second) false) (by omega),
    returnsOther _ (by omega)]

/-- A command is returned at the end of the data. -/
theorem exhausted_position {final : Parsed} {next : State} {command : Command}
    (exhausted : state.exhausted buffer content final = some next)
    (parsed : next.activity = .parsed command) : next.position = state.size := by
  cases final with
  | command name args inline =>
      cases exhausted
      rfl
  | failed =>
      cases exhausted
      cases parsed
  | more stage => cases exhausted
  | overflow => cases exhausted

/-- A line that is alone in the data is returned, as long as its arguments are not too many. -/
theorem returnsLines_singleton (line : InlineLine)
    (few : line.args.length ≤ respInlineArgumentCount)
    (parsing : state.activity = .parsing .type) (current : state.current = some buffer)
    (allocated : state.blocks buffer.data = some content) (room : state.size ≤ buffer.size)
    (holds : readRange content ⟨state.position, state.size - state.position⟩ = line.bytes) :
    ReturnsLines config state [line] := by
  obtain ⟨byte, token, alnum, name, unspaced, bytes⟩ := line.exists_bytes
  have nameLength : line.name.length = token.length + 1 := by rw [name, List.length_cons]
  have ranges : inlineRanges ⟨state.position, 1⟩ (state.position + 1)
      (token ++ spaced line.args) = (⟨state.position, line.name.length⟩,
        spacedRanges (state.position + line.name.length + 1) line.args) := by
    have arguments := inlineRanges_spaced ⟨state.position, 1⟩ (state.position + 1) unspaced
      fun other member => line.tokens other (List.mem_cons_of_mem _ member)
    have place : state.position + 1 + token.length = state.position + (token.length + 1) := by
      omega
    rw [arguments, nameLength, place, Nat.add_comm 1]
  have strings : spacedRanges state.position (line.name :: line.args) =
      ⟨state.position, line.name.length⟩ ::
        spacedRanges (state.position + line.name.length + 1) line.args := rfl
  have count : (spacedRanges (state.position + line.name.length + 1) line.args).length =
      line.args.length := length_spacedRanges _ _
  have sized : state.size - state.position = line.bytes.length := by
    rw [← holds, readRange_length]
  obtain ⟨takes, returned⟩ := @inline_returned config state buffer content _ _ _ alnum parsing
    current allocated room rfl (holds.trans bytes)
  rw [ranges, inlineParsed_of_le (Nat.le_trans (Nat.le_of_eq count) few), if_pos rfl] at returned
  have written : readRange content ⟨state.position,
      (line.name ++ (spaced line.args ++ [0x0d])).length⟩ =
        line.name ++ (spaced line.args ++ [0x0d]) := by
    have whole : line.bytes = (line.name ++ (spaced line.args ++ [0x0d])) ++ [0x0a] := by
      rw [InlineLine.bytes, InlineLine.joined, crlf, List.append_assoc, List.append_assoc,
        List.append_assoc]
      rfl
    rw [sized, whole] at holds
    exact (readRange_parts holds).1
  obtain ⟨read, behind⟩ := readRange_spacedRanges written
  have kept := readRange_terminated line.tokens read behind
  rw [strings, List.map_cons] at kept
  obtain ⟨nameRead, argsRead⟩ := List.cons.inj kept
  have held := Function.update_self buffer.data (some (terminated content
    (spacedRanges state.position (line.name :: line.args)))) state.blocks
  refine ⟨takes, _, _, returned, rfl, Prod.ext nameRead argsRead, ?_, ?_, ?_, trivial⟩
  · exact (congrArg (Option.map _) held).trans (congrArg some nameRead)
  · exact (mapM_read_pointers _ held).trans (congrArg some argsRead)
  · have some_ : 0 < line.bytes.length := by
      rw [bytes]
      exact Nat.succ_pos _
    show state.size = state.position + line.bytes.length
    omega

/-- The first of several lines takes the data of all of them, and a line with too many arguments
overflows. -/
theorem not_returnsLines {line : InlineLine} {rest : List InlineLine}
    (many : rest ≠ [] ∨ respInlineArgumentCount < line.args.length)
    (parsing : state.activity = .parsing .type) (current : state.current = some buffer)
    (allocated : state.blocks buffer.data = some content) (room : state.size ≤ buffer.size)
    (holds : readRange content ⟨state.position, state.size - state.position⟩ =
      (line :: rest).flatMap InlineLine.bytes) : ¬ReturnsLines config state (line :: rest) := by
  rintro ⟨takes, parsed, next, returns, activity, _, _, _, position, _⟩
  have sized := congrArg List.length holds
  rw [readRange_length, List.flatMap_cons, List.length_append] at sized
  change state.size - state.position = _ at sized
  by_cases single : rest = []
  · subst single
    have few := many.resolve_left (not_not.mpr rfl)
    obtain ⟨byte, token, alnum, name, unspaced, bytes⟩ := line.exists_bytes
    rw [List.flatMap_singleton, bytes] at holds
    obtain ⟨others, returned⟩ := @inline_returned config state buffer content _ _ _ alnum parsing
      current allocated room rfl holds
    have overflows : inlineParsed crlf (inlineRanges ⟨state.position, 1⟩ (state.position + 1)
        (token ++ spaced line.args)) = .overflow := by
      rw [inlineRanges_spaced _ _ unspaced fun other member =>
        line.tokens other (List.mem_cons_of_mem _ member)]
      exact if_pos (by rwa [length_spacedRanges])
    rw [overflows] at returned
    cases returned_unique returns returned
  · obtain ⟨byte, bytes, alnum, whole⟩ := exists_flatMap_bytes line rest
    have more : 0 < (rest.flatMap InlineLine.bytes).length := length_flatMap_bytes_pos single
    rw [whole] at holds
    obtain ⟨others, returned⟩ := @inline_returned config state buffer content _ _ _ alnum parsing
      current allocated room rfl holds
    have ended := exhausted_position (returned_unique returned returns) activity
    omega

/-- The lines in the data are returned exactly when they are one line, with at most
`RESP_INLINE_ARGUMENT_COUNT` arguments. -/
theorem returnsLines_iff {lines : List InlineLine} (some_ : lines ≠ [])
    (parsing : state.activity = .parsing .type) (current : state.current = some buffer)
    (allocated : state.blocks buffer.data = some content) (room : state.size ≤ buffer.size)
    (holds : readRange content ⟨state.position, state.size - state.position⟩ =
      lines.flatMap InlineLine.bytes) :
    ReturnsLines config state lines ↔
      ∃ line, lines = [line] ∧ line.args.length ≤ respInlineArgumentCount := by
  obtain ⟨line, rest, rfl⟩ := List.exists_cons_of_ne_nil some_
  by_cases single : rest = [] ∧ line.args.length ≤ respInlineArgumentCount
  · obtain ⟨rfl, few⟩ := single
    rw [List.flatMap_singleton] at holds
    exact iff_of_true (returnsLines_singleton line few parsing current allocated room holds)
      ⟨line, rfl, few⟩
  · have many : rest ≠ [] ∨ respInlineArgumentCount < line.args.length := by
      rwa [not_and_or, Nat.not_le] at single
    apply iff_of_false (not_returnsLines many parsing current allocated room holds)
    rintro ⟨other, same, few⟩
    obtain ⟨rfl, rfl⟩ := List.cons.inj same
    exact single ⟨rfl, few⟩

end Calls

/-! ### Lines on fixed input -/

/-- A line without arguments. -/
def pingLine : InlineLine where
  name := text "PING"
  args := []
  begins := by decide +kernel
  tokens := by decide +kernel

def getLine : InlineLine where
  name := text "GET"
  args := [text "key"]
  begins := by decide +kernel
  tokens := by decide +kernel

theorem returnsLines_iff_get :
    ReturnsLines pingConfig (buffered (text "GET key\r\n")) [getLine] ↔
      ∃ line, [getLine] = [line] ∧ line.args.length ≤ respInlineArgumentCount :=
  returnsLines_iff (List.cons_ne_nil _ _) rfl rfl rfl (by decide) (by decide +kernel)

/-- The name of the first of two lines goes on into the second. -/
theorem not_returnsLines_two : ¬ReturnsLines pingConfig
    (buffered (text "PING\r\nPING\r\n")) [pingLine, pingLine] :=
  not_returnsLines (.inl (List.cons_ne_nil _ _)) rfl rfl rfl (by decide) (by decide +kernel)

end TellyDB.Server.Reader
