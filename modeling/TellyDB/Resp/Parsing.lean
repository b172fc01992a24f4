import TellyDB.Resp.Parser

/-!
Owns what the parsers do with ranges: those they keep lie in the bytes they took,
and fed with the bytes of a RESP array, the stages end with the ranges of its
strings, whatever else the buffer holds.
-/

namespace TellyDB.Resp

/-! ## Ranges -/

/-- The ranges lie in a part of the buffer. -/
def Within (low high : Nat) (ranges : List Range) : Prop :=
  ∀ range ∈ ranges, low ≤ range.offset ∧ range.offset + range.length ≤ high

/-- The ranges a stage keeps. -/
def Stage.ranges : Stage → List Range
  | .type | .leadingLf | .leadingCr | .count _ | .countLf _ => []
  | .bulkType _ done | .bulkLength _ done _ | .bulkLf _ done _ | .bulkData _ done _
  | .bulkEnd _ done => done
  | .inlineName name | .inlineNameEnd name => [name]
  | .inlineArgument name args | .inlineArgumentEnd name args => name :: args
  | .inlineRest name args argument => name :: (args ++ [argument])

def Parsed.ranges : Parsed → List Range
  | .more stage => stage.ranges
  | .command name args _ => name :: args
  | .failed | .overflow => []

section Ranges

variable {low high offset position size : Nat}

theorem Within.nil : Within low high [] := by
  intro range member
  cases member

theorem Within.mono {ranges : List Range} (within : Within low offset ranges)
    (later : offset ≤ position) : Within low position ranges := by
  intro range member
  obtain ⟨start, ending⟩ := within range member
  exact ⟨start, by omega⟩

theorem Within.cons {range : Range} {ranges : List Range} (start : low ≤ range.offset)
    (ending : range.offset + range.length ≤ high) (within : Within low high ranges) :
    Within low high (range :: ranges) := by
  intro other member
  rcases List.mem_cons.mp member with rfl | later
  · exact ⟨start, ending⟩
  · exact within other later

theorem Within.append {first second : List Range} (before : Within low high first)
    (after : Within low high second) : Within low high (first ++ second) := by
  intro range member
  rcases List.mem_append.mp member with left | right
  · exact before range left
  · exact after range right

theorem Within.head {range : Range} {ranges : List Range}
    (within : Within low high (range :: ranges)) :
    low ≤ range.offset ∧ range.offset + range.length ≤ high :=
  within range (List.mem_cons_self ..)

theorem Within.tail {range : Range} {ranges : List Range}
    (within : Within low high (range :: ranges)) : Within low high ranges :=
  fun other member => within other (List.mem_cons_of_mem _ member)

theorem parseName_within {name : Range} (within : Within low position [name]) :
    Within low position (parseName name position size).ranges := by
  rw [parseName]
  split <;> exact within

theorem nameParsed_within {name : Range} (within : Within low position [name]) :
    Within low position (nameParsed name position size).ranges := by
  rw [nameParsed]
  split <;> exact within

theorem nameEnded_within {name : Range} (within : Within low position [name]) :
    Within low position (nameEnded name position size).ranges := by
  rw [nameEnded]
  split
  · exact within
  · exact nameParsed_within within

theorem argumentEnded_within {name argument : Range} {args : List Range}
    (within : Within low position (name :: (args ++ [argument]))) :
    Within low position (argumentEnded name args argument position size).ranges := by
  rw [argumentEnded]
  split
  · exact within
  · split
    · exact .nil
    · exact within

theorem parseArgument_within {name argument : Range} {args : List Range} {byte : UInt8}
    (within : Within low position (name :: (args ++ [argument]))) :
    Within low position (parseArgument name args argument byte position size).ranges := by
  rw [parseArgument]
  split
  · exact argumentEnded_within within
  · exact within

theorem parseCommand_within {byte : UInt8} {rest : Parsed} (start : low ≤ offset)
    (taken : offset + 1 ≤ position) (within : Within low position rest.ranges) :
    Within low position (parseCommand byte offset position size rest).ranges := by
  rw [parseCommand]
  split
  · exact .nil
  · split
    · exact parseName_within (.cons start taken .nil)
    · exact within

theorem digitOrCr_within {value : Option Nat} {byte : UInt8} {digit cr : Nat → Parsed}
    (digits : ∀ value, Within low high (digit value).ranges)
    (ends : ∀ value, Within low high (cr value).ranges) :
    Within low high (digitOrCr value byte digit cr).ranges := by
  cases value with
  | none =>
      rw [digitOrCr]
      split
      · exact digits _
      · exact .nil
  | some value =>
      rw [digitOrCr]
      split
      · exact digits _
      · split
        · exact ends _
        · exact .nil

/-- A byte that is taken ends the ranges it belongs to. -/
theorem Stage.nextByte_within {stage : Stage} {byte : UInt8}
    (within : Within low offset stage.ranges) (start : low ≤ offset)
    (taken : offset + 1 ≤ position) :
    Within low position (stage.nextByte offset position size byte).ranges := by
  have kept := within.mono (Nat.le_of_succ_le taken)
  cases stage with
  | type =>
      refine parseCommand_within start taken ?_
      split <;> exact .nil
  | leadingLf =>
      rw [Stage.nextByte]
      split <;> exact .nil
  | leadingCr =>
      rw [Stage.nextByte]
      split
      · exact .nil
      · exact parseCommand_within start taken .nil
  | count value =>
      rw [Stage.nextByte]
      exact digitOrCr_within (fun _ => .nil) fun _ => .nil
  | countLf value =>
      rw [Stage.nextByte]
      split <;> exact .nil
  | bulkType todo done =>
      rw [Stage.nextByte]
      split
      · exact kept
      · exact .nil
  | bulkLength todo done value =>
      rw [Stage.nextByte]
      exact digitOrCr_within (fun _ => kept) fun _ => kept
  | bulkLf todo done length =>
      rw [Stage.nextByte]
      split
      · exact kept
      · exact .nil
  | inlineName name =>
      rw [Stage.nextByte]
      split
      · exact nameEnded_within kept
      · obtain ⟨nameStart, nameEnd⟩ := within.head
        refine parseName_within (.cons nameStart ?_ .nil)
        change name.offset + (name.length + 1) ≤ position
        omega
  | inlineArgument name args =>
      exact parseArgument_within (.cons kept.head.1 kept.head.2
        (kept.tail.append (.cons start taken .nil)))
  | inlineRest name args argument =>
      rw [Stage.nextByte]
      split
      · exact argumentEnded_within kept
      · obtain ⟨argumentStart, argumentEnd⟩ := within argument (by simp [Stage.ranges])
        have before : Within low position args := fun range member =>
          kept.tail range (List.mem_append_left _ member)
        refine parseArgument_within (.cons kept.head.1 kept.head.2
          (before.append (.cons argumentStart ?_ .nil)))
        change argument.offset + (argument.length + 1) ≤ position
        omega
  | bulkData | bulkEnd | inlineNameEnd | inlineArgumentEnd => exact .nil

/-- The ranges of a parser lie in the bytes it took. -/
theorem Stage.next_within {stage : Stage} {taken : Option Bytes}
    (within : Within low offset stage.ranges) (start : low ≤ offset)
    (reaches : if taken = none then offset = position else offset + stage.request = position) :
    Within low position (stage.next offset position size taken).ranges := by
  have later : offset ≤ position := by
    split at reaches <;> omega
  have kept := within.mono later
  rw [Stage.next.eq_def]
  split
  · exact nameEnded_within kept
  · exact .nil
  · rename_i todo done length bytes
    exact kept.append (.cons start (Nat.le_of_eq reaches) .nil)
  · rename_i todo done bytes
    split
    · rw [bulkParsed.eq_def]
      split
      · split
        · exact kept
        · exact .nil
      · exact kept
    · exact .nil
  · split
    · exact nameParsed_within kept
    · exact .nil
  · split
    · exact kept
    · exact .nil
  · rename_i noData noEnd noNameEnd noArgumentEnd
    have one : stage.request = 1 := by
      cases stage with
      | bulkData todo done length => exact (noData todo done length rfl).elim
      | bulkEnd todo done => exact (noEnd todo done rfl).elim
      | inlineNameEnd name => exact (noNameEnd name rfl).elim
      | inlineArgumentEnd name args => exact (noArgumentEnd name args rfl).elim
      | _ => rfl
    refine Stage.nextByte_within within start ?_
    rw [← one]
    exact Nat.le_of_eq reaches
  · exact .nil

end Ranges

/-! ## Numbers -/

/-- The digit `value`. -/
def digitByte (value : Nat) : UInt8 := UInt8.ofNat (0x30 + value)

theorem digitChar_byte {value : Nat} (small : value < 10) :
    UInt8.ofNat value.digitChar.toNat = digitByte value := by
  revert value
  decide

theorem decimal_small {value : Nat} (small : value < 10) : decimal value = [digitByte value] := by
  rw [decimal, Nat.toDigits_of_lt_base small, List.map_singleton, digitChar_byte small]

theorem decimal_large {value : Nat} (large : 10 ≤ value) :
    decimal value = decimal (value / 10) ++ [digitByte (value % 10)] := by
  rw [decimal, Nat.toDigits_of_base_le (by decide) large, List.map_append, List.map_singleton,
    digitChar_byte (Nat.mod_lt _ (by decide)), decimal]

theorem isDigitByte_digitByte {value : Nat} (small : value < 10) :
    isDigitByte (digitByte value) = true := by
  revert value
  decide

theorem addDigit_digitByte {value digit : Nat} (small : digit < 10)
    (fits : value * 10 + digit < UInt32.size) : addDigit value (digitByte digit) = value * 10 + digit := by
  have byte : ∀ digit < 10, (digitByte digit).toNat - 0x30 = digit := by decide
  rw [addDigit, byte digit small, Nat.mod_eq_of_lt fits]

theorem decimal_digits (value : Nat) : ∀ byte ∈ decimal value, isDigitByte byte = true := by
  induction value using Nat.strongRecOn with
  | ind value inductionHypothesis =>
      rcases Nat.lt_or_ge value 10 with small | large
      · rw [decimal_small small]
        intro byte member
        rw [List.mem_singleton.mp member]
        exact isDigitByte_digitByte small
      · rw [decimal_large large]
        intro byte member
        rcases List.mem_append.mp member with before | last
        · exact inductionHypothesis (value / 10) (by omega) byte before
        · rw [List.mem_singleton.mp last]
          exact isDigitByte_digitByte (Nat.mod_lt _ (by decide))

/-- The loop of the source reads a number back. -/
theorem foldl_addDigit {value : Nat} (fits : value < UInt32.size) :
    (decimal value).foldl addDigit 0 = value := by
  induction value using Nat.strongRecOn with
  | ind value inductionHypothesis =>
      rcases Nat.lt_or_ge value 10 with small | large
      · rw [decimal_small small, List.foldl_cons, List.foldl_nil,
          addDigit_digitByte small (by omega)]
        omega
      · rw [decimal_large large, List.foldl_append, inductionHypothesis (value / 10) (by omega)
          (by omega), List.foldl_cons, List.foldl_nil,
          addDigit_digitByte (Nat.mod_lt _ (by decide)) (by omega)]
        omega

theorem decimal_ne_nil (value : Nat) : decimal value ≠ [] := by
  rcases Nat.lt_or_ge value 10 with small | large
  · rw [decimal_small small]
    exact List.cons_ne_nil _ _
  · rw [decimal_large large]
    exact List.append_ne_nil_of_right_ne_nil _ (List.cons_ne_nil _ _)

/-! ## Stages -/

/-- The bytes take a parser from a stage to the end of a command, which is not
an inline one. -/
inductive Feeds (name : Range) (args : List Range) : Stage → Nat → Bytes → Prop where
  | last {stage : Stage} {position : Nat} {bytes : Bytes} (length : bytes.length = stage.request)
      (parsed : ∀ size, stage.next position (position + bytes.length) size (some bytes) =
        .command name args false) :
      Feeds name args stage position bytes
  | more {stage after : Stage} {position : Nat} {bytes rest : Bytes}
      (length : bytes.length = stage.request)
      (parsed : ∀ size, stage.next position (position + bytes.length) size (some bytes) =
        .more after)
      (later : Feeds name args after (position + bytes.length) rest) :
      Feeds name args stage position (bytes ++ rest)

section Feeding

variable {name : Range} {args : List Range}

/-- One byte. -/
theorem Feeds.byte {stage : Stage} (after : Stage) {position : Nat} {byte : UInt8} {rest : Bytes}
    (one : stage.request = 1)
    (parsed : ∀ size, stage.next position (position + 1) size (some [byte]) = .more after)
    (later : Feeds name args after (position + 1) rest) :
    Feeds name args stage position (byte :: rest) := by
  have bytes : [byte].length = stage.request := one.symm
  exact Feeds.more bytes parsed later

/-- A command does not end before its last bytes. -/
theorem Feeds.ne_nil {stage : Stage} {position : Nat} {bytes : Bytes}
    (feeds : Feeds name args stage position bytes) : bytes ≠ [] := by
  induction feeds with
  | @last stage position bytes length parsed =>
      rintro rfl
      cases stage with
      | bulkData todo done count => cases parsed 0
      | _ => cases length
  | more _ _ _ inductionHypothesis => exact List.append_ne_nil_of_right_ne_nil _ inductionHypothesis

/-- The digits of a number, and the CR behind it. -/
theorem Feeds.number (stage : Option Nat → Stage) (after : Nat → Stage) {value position : Nat}
    {rest : Bytes} (fits : value < UInt32.size) (one : ∀ value, (stage value).request = 1)
    (next : ∀ value offset position size byte,
      (stage value).next offset position size (some [byte]) =
        digitOrCr value byte (fun value => .more (stage (some value)))
          fun value => .more (after value))
    (later : Feeds name args (after value) (position + (decimal value).length + 1) rest) :
    Feeds name args (stage none) position (decimal value ++ 0x0d :: rest) := by
  have digits : ∀ (bytes : Bytes) (read position : Nat),
      (∀ byte ∈ bytes, isDigitByte byte = true) → bytes.foldl addDigit read = value →
      Feeds name args (after value) (position + bytes.length + 1) rest →
      Feeds name args (stage (some read)) position (bytes ++ 0x0d :: rest) := by
    intro bytes
    induction bytes with
    | nil =>
        intro read position _ same later
        cases same
        exact .byte (after _) (one _) (fun size => by rw [next]; rfl) later
    | cons byte bytes inductionHypothesis =>
        intro read position allDigits same later
        refine .byte (stage (some (addDigit read byte))) (one _) (fun size => ?_) ?_
        · rw [next, digitOrCr, if_pos (allDigits byte (List.mem_cons_self ..))]
        · refine inductionHypothesis _ _ (fun other member =>
            allDigits other (List.mem_cons_of_mem _ member)) same ?_
          rwa [Nat.add_right_comm position 1]
  cases written : decimal value with
  | nil => exact absurd written (decimal_ne_nil value)
  | cons byte bytes =>
      have allDigits := decimal_digits value
      have same := foldl_addDigit fits
      rw [written] at allDigits same later
      refine .byte (stage (some (addDigit 0 byte))) (one _) (fun size => ?_) ?_
      · rw [next, digitOrCr, if_pos (allDigits byte (List.mem_cons_self ..))]
      · refine digits bytes _ _ (fun other member =>
          allDigits other (List.mem_cons_of_mem _ member)) same ?_
        rwa [Nat.add_right_comm position 1]

end Feeding

/-! ## Commands -/

/-- The ranges of bulk strings that start at `position`. -/
def stringRanges (position : Nat) : List Bytes → List Range
  | [] => []
  | string :: rest =>
      ⟨position + (1 + (decimal string.length).length + 2), string.length⟩ ::
        stringRanges (position + (createRespString string).length) rest

theorem createRespString_eq (string : Bytes) : createRespString string =
    0x24 :: (decimal string.length ++ 0x0d :: 0x0a :: (string ++ crlf)) := by
  rw [createRespString]
  simp only [show text "$" = [0x24] from rfl, crlf, List.append_assoc, List.cons_append,
    List.nil_append]

theorem feeds_strings {name : Range} {args done : List Range} {strings : List Bytes}
    {position : Nat} (some_ : strings ≠ [])
    (fits : ∀ string ∈ strings, string.length < UInt32.size)
    (ranges : done ++ stringRanges position strings = name :: args) :
    Feeds name args (.bulkType strings.length done) position
      (strings.flatMap createRespString) := by
  induction strings generalizing done position with
  | nil => exact absurd rfl some_
  | cons string rest inductionHypothesis =>
      rw [List.flatMap_cons, createRespString_eq]
      simp only [List.cons_append, List.append_assoc]
      refine .byte _ rfl (fun _ => rfl) (.number (.bulkLength _ done) (.bulkLf _ done)
        (fits string (List.mem_cons_self ..)) (fun _ => rfl) (fun _ _ _ _ _ => rfl)
        (.byte _ rfl (fun _ => rfl) (.more rfl (fun _ => rfl) ?_)))
      have header : position + 1 + (decimal string.length).length + 1 + 1 =
          position + (1 + (decimal string.length).length + 2) := by omega
      have length : (createRespString string).length =
          1 + (decimal string.length).length + 2 + string.length + 2 := by
        rw [createRespString_eq]
        simp only [List.length_cons, List.length_append, crlf, List.length_nil]
        omega
      rw [header]
      cases rest with
      | nil =>
          rw [List.flatMap_nil, List.append_nil]
          refine .last rfl fun _ => ?_
          rw [stringRanges, stringRanges] at ranges
          change bulkParsed 1 (done ++ [_]) = _
          rw [ranges]
          rfl
      | cons next others =>
          refine .more rfl (fun _ => rfl) ?_
          have ranges : (done ++ [⟨position + (1 + (decimal string.length).length + 2),
              string.length⟩]) ++ stringRanges (position + (createRespString string).length)
                (next :: others) = name :: args := by
            rw [List.append_assoc]
            exact ranges
          have later := inductionHypothesis (List.cons_ne_nil next others)
            (fun other member => fits other (List.mem_cons_of_mem _ member)) ranges
          have position_eq : position + (1 + (decimal string.length).length + 2) +
              string.length + crlf.length = position + (createRespString string).length := by
            rw [length, show crlf.length = 2 from rfl]
            omega
          rw [position_eq]
          exact later

/-- The ranges of the strings of a command that starts at `position`. -/
def commandRanges (position : Nat) (command : CommandData) : List Range :=
  stringRanges (position + (1 + (decimal command.strings.length).length + 2)) command.strings

theorem length_createRespString (string : Bytes) :
    string.length < (createRespString string).length := by
  simp only [createRespString, List.length_append, crlf, List.length_cons, List.length_nil]
  omega

theorem length_le_strings (strings : List Bytes) :
    strings.length ≤ (strings.flatMap createRespString).length := by
  induction strings with
  | nil => exact Nat.le_refl 0
  | cons string rest inductionHypothesis =>
      have longer := length_createRespString string
      rw [List.flatMap_cons, List.length_append, List.length_cons]
      omega

/-- An encoding that fits into a buffer has numbers of 32 bits. -/
theorem encodeCommand_fits {command : CommandData}
    (short : (encodeCommand command).length < UInt32.size) : command.Fits := by
  have body : (command.strings.flatMap createRespString).length < UInt32.size := by
    rw [encodeCommand, List.length_append] at short
    omega
  refine ⟨Nat.lt_of_le_of_lt (length_le_strings _) body, fun string member => ?_⟩
  have part : (createRespString string).length ≤
      (command.strings.flatMap createRespString).length := by
    rw [List.flatMap_def]
    exact (List.sublist_flatten_of_mem (List.mem_map_of_mem member)).length_le
  have longer := length_createRespString string
  omega

/-- A RESP array is read from its `*` on, at each of the stages that open one. -/
theorem feeds_array {stage : Stage} {command : CommandData} (one : stage.request = 1)
    (opens : ∀ position size,
      stage.next position (position + 1) size (some [0x2a]) = .more (.count none))
    (fits : command.Fits) (position : Nat) {name : Range} {args : List Range}
    (ranges : commandRanges position command = name :: args) :
    Feeds name args stage position (encodeCommand command) := by
  have written : encodeCommand command = 0x2a :: (decimal command.strings.length ++
      0x0d :: 0x0a :: command.strings.flatMap createRespString) := by
    rw [encodeCommand]
    simp only [show text "*" = [0x2a] from rfl, crlf, List.append_assoc, List.cons_append,
      List.nil_append]
  have counted : command.strings.length ≠ 0 := Nat.succ_ne_zero _
  rw [written]
  refine .byte _ one (opens position) (.number .count .countLf fits.1 (fun _ => rfl)
    (fun _ _ _ _ _ => rfl) (.byte (.bulkType command.strings.length []) rfl
      (fun _ => ?_) ?_))
  · have accepted : (0x0a : UInt8) = 0x0a ∧ command.strings.length ≠ 0 := ⟨rfl, counted⟩
    change (if (0x0a : UInt8) = 0x0a ∧ command.strings.length ≠ 0 then
      Parsed.more (.bulkType command.strings.length []) else .failed) = _
    exact if_pos accepted
  · have header : position + 1 + (decimal command.strings.length).length + 1 + 1 =
        position + (1 + (decimal command.strings.length).length + 2) := by omega
    rw [header]
    exact feeds_strings (List.cons_ne_nil command.1 command.2) fits.2 ranges

/-- The parsers read a well-formed command from its first byte on. -/
theorem feeds_command {command : CommandData} (fits : command.Fits) (position : Nat)
    {name : Range} {args : List Range} (ranges : commandRanges position command = name :: args) :
    Feeds name args .type position (encodeCommand command) :=
  feeds_array rfl (fun _ _ => rfl) fits position ranges

/-- So many empty lines. -/
def emptyLines : Nat → Bytes
  | 0 => []
  | count + 1 => 0x0d :: 0x0a :: emptyLines count

theorem length_emptyLines (count : Nat) : (emptyLines count).length = 2 * count := by
  induction count with
  | zero => rfl
  | succ count inductionHypothesis =>
      rw [emptyLines, List.length_cons, List.length_cons, inductionHypothesis]
      omega

/-- Empty lines in front of a command are passed over. -/
theorem feeds_emptyLines {command : CommandData} (fits : command.Fits) (count position : Nat)
    {name : Range} {args : List Range}
    (ranges : commandRanges (position + 2 * count) command = name :: args) :
    Feeds name args .type position (emptyLines count ++ encodeCommand command) := by
  have later : ∀ count position,
      commandRanges (position + 2 * count) command = name :: args →
      Feeds name args .leadingCr position (emptyLines count ++ encodeCommand command) := by
    intro count
    induction count with
    | zero => exact fun position ranges => feeds_array rfl (fun _ _ => rfl) fits position ranges
    | succ count inductionHypothesis =>
        intro position ranges
        refine .byte .leadingLf rfl (fun _ => rfl) (.byte .leadingCr rfl (fun _ => rfl) ?_)
        apply inductionHypothesis
        rw [← ranges]
        congr 1
        omega
  cases count with
  | zero => exact feeds_command fits position ranges
  | succ count =>
      refine .byte .leadingLf rfl (fun _ => rfl) (.byte .leadingCr rfl (fun _ => rfl) ?_)
      apply later
      rw [← ranges]
      congr 1
      omega

/-! ## The first stage -/

theorem nameEnded_ne_type (name : Range) (position size : Nat) :
    nameEnded name position size ≠ .more .type := by
  intro again
  simp only [nameEnded, nameParsed] at again
  repeat (first | cases again | split at again)

/-- No byte leads back to the first stage. -/
theorem Stage.nextByte_ne_type (stage : Stage) (offset position size : Nat) (byte : UInt8) :
    stage.nextByte offset position size byte ≠ .more .type := by
  intro again
  cases stage <;>
    simp only [Stage.nextByte, parseCommand, parseName, digitOrCr, nameEnded, nameParsed,
      argumentEnded, parseArgument] at again <;>
    repeat (first | cases again | split at again)

/-- A parser that goes on is not at the first stage again. -/
theorem Stage.next_ne_type (stage : Stage) (offset position size : Nat) (taken : Option Bytes) :
    stage.next offset position size taken ≠ .more .type := by
  intro again
  rw [Stage.next.eq_def] at again
  split at again
  · exact nameEnded_ne_type _ _ _ again
  · cases again
  · cases again
  · simp only [bulkParsed] at again
    repeat (first | cases again | split at again)
  · simp only [nameParsed] at again
    repeat (first | cases again | split at again)
  · split at again <;> cases again
  · exact Stage.nextByte_ne_type _ _ _ _ _ again
  · cases again

end TellyDB.Resp
