import TellyDB.Server.Reader.Inline
import TellyDB.Server.Reader.Window

/-!
Owns where the parsers of inline commands write: the arguments into `args.data`, and the NULs
into the read buffer.
-/

namespace TellyDB.Server.Reader

open Resp

/-- No argument goes behind `args.data`, and no NUL behind the read buffer. -/
def WritesInside (capacity : Nat) : Parsed → Prop
  | .overflow => False
  | .command name args true => ∀ range ∈ name :: args, range.behind < capacity
  | .command _ _ false | .more _ | .failed => True

/-- One `take_n_bytes` of a parser, and what the parser makes of it. -/
def TakeWritesInside (config : Config) (state : State) (moved : Bool) : Prop :=
  ∀ stage taken offset buffer content, state.activity = .parsing stage →
    takeNBytes config state stage.request moved = some (taken, offset) →
    taken.current = some buffer → taken.blocks buffer.data = some content →
    WritesInside buffer.size (stage.next (offset.getD taken.position) taken.position taken.size
      (offset.map fun offset => readRange content ⟨offset, stage.request⟩))

/-- All takes of one call of `get_command_data`. -/
def CallWritesInside (config : Config) : State → List Bool → Prop
  | _, [] => True
  | state, moved :: rest => TakeWritesInside config state moved ∧
      ∀ next stage, take config state moved = some next → next.activity = .parsing stage →
        stage ≠ .type → CallWritesInside config next rest

section Bounds

variable {config : Config} {state : State} {buffer : QueryBuffer} {content : Nat → UInt8}
  {stage : Stage}

/-! ## Commands in the buffer -/

theorem takeWritesInside_iff (parsing : state.activity = .parsing stage)
    (current : state.current = some buffer) (allocated : state.blocks buffer.data = some content)
    (inside : stage.request ≤ state.size - state.position) (moved : Bool) :
    TakeWritesInside config state moved ↔
      WritesInside buffer.size (stage.next state.position (state.position + stage.request)
        state.size (some (readRange content ⟨state.position, stage.request⟩))) := by
  constructor
  · intro writes
    exact writes stage _ _ buffer content parsing (takeNBytes_inside inside moved) current allocated
  · rintro writes other taken offset otherBuffer otherContent same bytes found held
    rw [parsing] at same
    cases same
    rw [takeNBytes_inside inside] at bytes
    cases bytes
    have found : state.current = some otherBuffer := found
    rw [current] at found
    cases found
    have held : state.blocks buffer.data = some otherContent := held
    rw [allocated] at held
    cases held
    exact writes

theorem Continues.parsed {name : Range} {args : List Range} {inline : Bool} {next : State}
    (continues : Continues state (.command name args inline) next) :
    ∃ command, next.activity = .parsed command := by
  cases continues with
  | command inline ended resolved =>
      obtain ⟨_, _, resolved⟩ := Option.bind_eq_some_iff.mp resolved
      obtain ⟨_, _, resolved⟩ := Option.bind_eq_some_iff.mp resolved
      cases resolved
      exact ⟨_, rfl⟩

/-- Nothing is written once the parser does not go on. -/
theorem callsWriteInside_of_stop (parsing : state.activity = .parsing stage)
    (current : state.current = some buffer) (allocated : state.blocks buffer.data = some content)
    (inside : stage.request ≤ state.size - state.position)
    (stops : ∀ after, stage.next state.position (state.position + stage.request) state.size
      (some (readRange content ⟨state.position, stage.request⟩)) ≠ .more after) :
    (∀ moves, CallWritesInside config state moves) ↔
      WritesInside buffer.size (stage.next state.position (state.position + stage.request)
        state.size (some (readRange content ⟨state.position, stage.request⟩))) := by
  constructor
  · intro writes
    exact (takeWritesInside_iff parsing current allocated inside false).mp (writes [false]).1
  · intro writes moves
    cases moves with
    | nil => trivial
    | cons moved rest =>
        refine ⟨(takeWritesInside_iff parsing current allocated inside moved).mpr writes, ?_⟩
        intro next after took reached onwards
        have continues := take_inside parsing current allocated inside took
        cases parsed : stage.next state.position (state.position + stage.request) state.size
            (some (readRange content ⟨state.position, stage.request⟩)) with
        | more after => exact absurd parsed (stops after)
        | failed =>
            rw [parsed] at continues
            cases continues
            cases reached
            exact absurd rfl onwards
        | command name args inline =>
            rw [parsed] at continues
            obtain ⟨command, ended⟩ := continues.parsed
            rw [ended] at reached
            cases reached
        | overflow =>
            rw [parsed] at continues
            cases continues

/-- A call that takes all of the data writes inside unless it overflows. -/
theorem Exhausts.callsWriteInside_iff {size position : Nat} {parsed final : Parsed}
    (exhausts : Exhausts content size parsed position final) (same : parsed = .more stage)
    (sized : state.size = size) (parsing : state.activity = .parsing stage)
    (begins : state.position = position) (current : state.current = some buffer)
    (allocated : state.blocks buffer.data = some content)
    (behind : ∀ name args, final = .command name args true →
      ∀ range ∈ name :: args, range.behind < buffer.size) :
    (∀ moves, CallWritesInside config state moves) ↔ final ≠ .overflow := by
  induction exhausts generalizing state stage with
  | failed => cases same
  | command name args => cases same
  | overflow position => cases same
  | @more stage position final inside later inductionHypothesis =>
      cases same
      subst sized begins
      have there : stage.request ≤ state.size - state.position := by omega
      have stop := @callsWriteInside_of_stop config state buffer content stage parsing current
        allocated there
      cases parsed : stage.next state.position (state.position + stage.request) state.size
          (some (readRange content ⟨state.position, stage.request⟩)) with
      | more after =>
          let reached : State := { state with
            position := state.position + stage.request, activity := .parsing after }
          have onwards : after ≠ .type := by
            rintro rfl
            exact Stage.next_ne_type _ _ _ _ _ parsed
          have sizeReached : reached.size = state.size := rfl
          have stageReached : reached.activity = .parsing after := rfl
          rw [← inductionHypothesis parsed sizeReached stageReached rfl current allocated behind]
          constructor
          · intro writes moves
            exact (writes (false :: moves)).2 reached after
              (take_more parsing current allocated there parsed false) rfl onwards
          · intro writes moves
            cases moves with
            | nil => trivial
            | cons moved rest =>
                refine ⟨?_, fun next other took _ _ => ?_⟩
                · rw [takeWritesInside_iff parsing current allocated there, parsed]
                  trivial
                · rw [take_more parsing current allocated there parsed] at took
                  cases took
                  exact writes rest
      | failed =>
          rw [parsed] at later stop
          obtain ⟨_, rfl⟩ := later.of_failed
          exact iff_of_true ((stop nofun).mpr trivial) nofun
      | command name args inline =>
          rw [parsed] at later stop
          obtain ⟨rfl, _, rfl⟩ := later.of_command
          exact iff_of_true ((stop nofun).mpr (behind name args rfl)) nofun
      | overflow =>
          rw [parsed] at later stop
          obtain rfl := later.of_overflow
          exact iff_of_false (fun writes => (stop nofun).mp writes) (fun other => other rfl)

/-! ## Names at the end of the data -/

/-- A name whose bytes are read one at a time: at most one is in the buffer. -/
def NameAtEnd (state : State) (name : Range) : Prop :=
  state.activity = .parsing (.inlineName name) ∧ name.behind = state.position ∧
    (state.size = state.position ∨ state.size = state.position + 1) ∧
    ∃ buffer, state.current = some buffer ∧ state.size ≤ buffer.size

/-- The byte is the last one of the data, or there is none and room for it. -/
theorem NameAtEnd.taken {name : Range} {taken : State} {offset : Option Nat} {moved : Bool}
    (nameAtEnd : NameAtEnd state name)
    (took : takeNBytes config state 1 moved = some (taken, offset)) :
    taken.size = taken.position ∧ ∃ buffer, taken.current = some buffer ∧
      taken.size ≤ buffer.size ∧ name.behind < buffer.size ∧
      (offset = none ∨ offset = some state.position ∧ taken.position = state.position + 1) := by
  obtain ⟨_, behind, place, buffer, current, room⟩ := nameAtEnd
  rcases takeNBytes_eq took with ⟨there, rfl, rfl⟩ | ⟨missing, read, count, ⟨reads⟩, ended⟩
  · have size : state.size = state.position + 1 := by omega
    exact ⟨size, buffer, current, room, by omega, .inr ⟨rfl, rfl⟩⟩
  · have size : state.size = state.position := by omega
    have own := reads.current
    rw [current] at own
    obtain ⟨after, found, capacity⟩ := reads.capacity
    have more : state.size + 1 ≤ after.size := by
      rw [capacity]
      omega
    have undisturbed := reads.undisturbed
    have readPosition := undisturbed.position
    have readSize := undisturbed.size
    rcases ended with ⟨_, rfl, rfl⟩ | ⟨_, rfl, rfl⟩
    · exact ⟨by omega, after, found, by omega, by omega, .inl rfl⟩
    · refine ⟨?_, after, found, ?_, by omega, .inr ⟨rfl, rfl⟩⟩
      · show read.size + _ = state.position + 1
        omega
      · show read.size + _ ≤ after.size
        omega

/-- The name ends, and is the command, or it goes on. -/
theorem NameAtEnd.next {name : Range} {taken : State} {offset : Option Nat} {moved : Bool}
    (nameAtEnd : NameAtEnd state name) (content : Nat → UInt8)
    (took : takeNBytes config state 1 moved = some (taken, offset)) :
    (Stage.inlineName name).next (offset.getD taken.position) taken.position taken.size
        (offset.map fun offset => readRange content ⟨offset, 1⟩) = .command name [] true ∨
      taken.position = state.position + 1 ∧
        (Stage.inlineName name).next (offset.getD taken.position) taken.position taken.size
          (offset.map fun offset => readRange content ⟨offset, 1⟩) =
            .more (.inlineName { name with length := name.length + 1 }) := by
  obtain ⟨size, _, _, _, _, way⟩ := nameAtEnd.taken took
  have ends : nameEnded name taken.position taken.size = .command name [] true := by
    rw [nameEnded, if_neg (by omega), nameParsed, if_pos size.symm]
  rcases way with rfl | ⟨rfl, position⟩
  · exact .inl ends
  · by_cases space : content state.position = 0x20
    · left
      show (if content (state.position + 0) = 0x20 then _ else _) = _
      rw [Nat.add_zero, if_pos space]
      exact ends
    · right
      refine ⟨position, ?_⟩
      show (if content (state.position + 0) = 0x20 then _ else _) = _
      rw [Nat.add_zero, if_neg space, parseName, if_neg (by omega)]

theorem NameAtEnd.callWritesInside {name : Range} (nameAtEnd : NameAtEnd state name)
    (moves : List Bool) : CallWritesInside config state moves := by
  induction moves generalizing state name with
  | nil => trivial
  | cons moved rest inductionHypothesis =>
      have parsing := nameAtEnd.1
      constructor
      · intro stage taken offset buffer content same bytes current allocated
        rw [parsing] at same
        cases same
        obtain ⟨_, after, found, _, inside, _⟩ := nameAtEnd.taken bytes
        rw [current] at found
        cases found
        rcases nameAtEnd.next content bytes with ended | ⟨_, more⟩
        · show WritesInside _ ((Stage.inlineName name).next _ _ _ (offset.map fun offset =>
            readRange content ⟨offset, 1⟩))
          rw [ended]
          exact List.forall_mem_singleton.mpr inside
        · show WritesInside _ ((Stage.inlineName name).next _ _ _ (offset.map fun offset =>
            readRange content ⟨offset, 1⟩))
          rw [more]
          trivial
      · intro next stage took reached onwards
        obtain ⟨own, taken, offset, buffer, content, same, bytes, current, allocated,
          continues⟩ := take_eq took
        rw [parsing] at same
        cases same
        obtain ⟨size, after, found, room, _, _⟩ := nameAtEnd.taken bytes
        change Continues taken ((Stage.inlineName name).next _ _ _ (offset.map fun offset =>
          readRange content ⟨offset, 1⟩)) next at continues
        rcases nameAtEnd.next content bytes with ended | ⟨position, more⟩
        · rw [ended] at continues
          obtain ⟨command, parsed⟩ := continues.parsed
          rw [parsed] at reached
          cases reached
        · rw [more] at continues
          cases continues
          have longer : ({ name with length := name.length + 1 } : Range).behind =
              taken.position := by
            rw [position, ← nameAtEnd.2.1]
            rfl
          have again : NameAtEnd { taken with
              activity := .parsing (.inlineName { name with length := name.length + 1 }) }
                { name with length := name.length + 1 } :=
            ⟨rfl, longer, .inl size, after, found, room⟩
          exact inductionHypothesis again

/-! ## Every command -/

theorem dropLast_readRange (content : Nat → UInt8) (offset length : Nat) :
    (readRange content ⟨offset, length⟩).dropLast = readRange content ⟨offset, length - 1⟩ := by
  cases length with
  | zero => rfl
  | succ length =>
      rw [readRange, List.range_succ, List.map_append, List.map_singleton, List.dropLast_concat]
      rfl

theorem inlineParsed_ne_overflow_iff {ends : Bytes} {ranges : Range × List Range} :
    inlineParsed ends ranges ≠ .overflow ↔ ranges.2.length ≤ respInlineArgumentCount := by
  rw [inlineParsed]
  split
  · next many => exact iff_of_false (fun other => other rfl) (Nat.not_le.mpr many)
  · next few =>
      apply iff_of_true _ (Nat.le_of_not_lt few)
      split <;> (intro same; cases same)

/-- The spaces of the data, without its first byte and the last three, open the arguments. -/
theorem callWritesInside_iff (opens : stage = .type ∨ stage = .leadingCr)
    (parsing : state.activity = .parsing stage) (current : state.current = some buffer)
    (allocated : state.blocks buffer.data = some content) (room : state.size ≤ buffer.size)
    (there : state.position < state.size) (alnum : isAlnum (content state.position) = true) :
    (∀ moves, CallWritesInside config state moves) ↔
      (readRange content ⟨state.position + 1, state.size - state.position - 4⟩).count 0x20 ≤
        respInlineArgumentCount := by
  have one : stage.request = 1 := by
    rcases opens with rfl | rfl <;> rfl
  by_cases short : state.size < state.position + 3
  · have none_ : state.size - state.position - 4 = 0 := by omega
    have within : stage.request ≤ state.size - state.position := by omega
    have opened : stage.next state.position (state.position + stage.request) state.size
        (some (readRange content ⟨state.position, stage.request⟩)) =
          .more (.inlineName ⟨state.position, 1⟩) := by
      rw [one]
      show stage.next _ _ _ (some [content state.position]) = _
      rw [next_alnum opens alnum, parseName, if_neg (by omega)]
    apply iff_of_true _ (by rw [none_]; exact Nat.zero_le _)
    intro moves
    cases moves with
    | nil => trivial
    | cons moved rest =>
        refine ⟨?_, fun next other took _ _ => ?_⟩
        · rw [takeWritesInside_iff parsing current allocated within, opened]
          trivial
        · let reached : State := { state with
            position := state.position + stage.request
            activity := .parsing (.inlineName ⟨state.position, 1⟩) }
          have position : state.position + 1 = state.position + stage.request := by rw [one]
          have place : state.size = state.position + stage.request ∨
              state.size = state.position + stage.request + 1 := by omega
          have nameAtEnd : NameAtEnd reached ⟨state.position, 1⟩ :=
            ⟨rfl, position, place, buffer, current, room⟩
          rw [take_more parsing current allocated within opened] at took
          cases took
          exact nameAtEnd.callWritesInside rest
  · obtain ⟨length, sized⟩ := Nat.exists_eq_add_of_le (Nat.le_of_not_lt short)
    have count : state.size - state.position - 4 = length - 1 := by omega
    have ended : state.size = state.position + 1 + length + 2 := by omega
    have read : readRange content ⟨state.position, length + 1⟩ =
        content state.position :: readRange content ⟨state.position + 1, length⟩ := by
      rw [Nat.add_comm, readRange_append]
      rfl
    have length_eq : (readRange content ⟨state.position + 1, length⟩).length = length :=
      readRange_length ..
    have exhausts := @exhausts_inline content (state.position + 1 + length) stage state.position
      (content state.position) (readRange content ⟨state.position + 1, length⟩) opens alnum
      (by rw [List.length_cons, length_eq]; exact read) (by rw [length_eq])
    have behind := @inlineParsed_behind (readRange content ⟨state.position + 1 + length, 2⟩)
      (readRange content ⟨state.position + 1, length⟩) (state.position + 1) ⟨state.position, 1⟩ rfl
    rw [length_eq] at behind
    rw [exhausts.callsWriteInside_iff rfl ended parsing rfl current allocated, count,
      ← dropLast_readRange, ← length_inlineRanges ⟨state.position, 1⟩ (state.position + 1)]
    · exact inlineParsed_ne_overflow_iff
    · intro name args parsed range member
      have inside := behind name args parsed range member
      omega

end Bounds

/-! ### Bounds on fixed input -/

theorem callWritesInside_iff_get :
    (∀ moves, CallWritesInside pingConfig (buffered (text "GET key\r\n")) moves) ↔
      (readRange (writeBytes (fun _ => 0) 0 (text "GET key\r\n")) ⟨0 + 1, 9 - 0 - 4⟩).count 0x20 ≤
        respInlineArgumentCount :=
  callWritesInside_iff (.inl rfl) rfl rfl rfl (by decide) (by decide) (by decide +kernel)

/-- 33 arguments behind a name. -/
def crowdedArguments : Bytes := (List.replicate 33 (text " B")).flatten

/-- The 33rd argument goes behind `args.data`. -/
theorem not_callWritesInside_crowded : ¬∀ moves, CallWritesInside pingConfig
    (buffered (text "A" ++ crowdedArguments ++ crlf)) moves := by
  have exhausts := @exhausts_inline
    (writeBytes (fun _ => 0) 0 (text "A" ++ crowdedArguments ++ crlf)) 67 .type 0 0x41
    crowdedArguments (.inl rfl) (by decide) (by decide +kernel) (by decide +kernel)
  have overflows : inlineParsed (readRange (writeBytes (fun _ => 0) 0
      (text "A" ++ crowdedArguments ++ crlf)) ⟨67, 2⟩) (inlineRanges ⟨0, 1⟩ (0 + 1)
        crowdedArguments) = .overflow := if_pos (by decide +kernel)
  rw [overflows] at exhausts
  rw [exhausts.callsWriteInside_iff rfl (by decide +kernel) rfl rfl rfl rfl nofun]
  exact fun other => other rfl

end TellyDB.Server.Reader
