import TellyDB.Resp.Replies

/-!
Owns the command parsers of `resp/data.c`, `resp/resp.c` and `resp/inline.c`,
cut at their calls of `take_n_bytes`: a stage is what a parser is about to
take, and what it made of the bytes before. Values are offsets into the read
buffer, as the parsers keep them until the end. All allocations succeed.
-/

namespace TellyDB.Resp

/-- A `string_t` whose value is an offset into the read buffer. -/
structure Range where
  offset : Nat
  length : Nat
deriving DecidableEq

inductive Stage where
  /-- `get_command_data`: the first byte, and leading CRLFs. -/
  | type
  | leadingLf
  | leadingCr
  /-- `parse_resp_command`: the digits of the count, and the byte after its CR. -/
  | count (value : Option Nat)
  | countLf (value : Nat)
  /-- `get_resp_command_name` and `get_resp_command_argument`, with the bulk
  strings to do, this one included, and those that are done. -/
  | bulkType (todo : Nat) (done : List Range)
  | bulkLength (todo : Nat) (done : List Range) (value : Option Nat)
  | bulkLf (todo : Nat) (done : List Range) (length : Nat)
  | bulkData (todo : Nat) (done : List Range) (length : Nat)
  | bulkEnd (todo : Nat) (done : List Range)
  /-- `parse_name`, then its `check_crlf`. -/
  | inlineName (name : Range)
  | inlineNameEnd (name : Range)
  /-- `parse_arguments`: the first byte of an argument, its next one, and the
  `check_crlf` after the last. -/
  | inlineArgument (name : Range) (args : List Range)
  | inlineRest (name : Range) (args : List Range) (argument : Range)
  | inlineArgumentEnd (name : Range) (args : List Range)
deriving DecidableEq

/-- What a parser does once it took its bytes, or fewer. `inline` is for a command
whose strings get a NUL behind them. `overflow` writes past
`RESP_INLINE_ARGUMENT_COUNT` arguments. -/
inductive Parsed where
  | more (stage : Stage)
  | command (name : Range) (args : List Range) (inline : Bool)
  | failed
  | overflow

/-- The `n` of the `take_n_bytes` a stage calls. -/
def Stage.request : Stage → Nat
  | .bulkData _ _ length => length
  | .bulkEnd _ _ | .inlineNameEnd _ | .inlineArgumentEnd _ _ => 2
  | _ => 1

/-- `RESP_INLINE_ARGUMENT_COUNT`. -/
def respInlineArgumentCount : Nat := 32

def isDigitByte (byte : UInt8) : Bool := decide (0x30 ≤ byte ∧ byte ≤ 0x39)

/-- `isalnum`, in the C locale. -/
def isAlnum (byte : UInt8) : Bool :=
  isDigitByte byte || decide (0x41 ≤ byte ∧ byte ≤ 0x5a) || decide (0x61 ≤ byte ∧ byte ≤ 0x7a)

/-- `(value * 10) + (*c - '0')`, a `uint32_t`. -/
def addDigit (value : Nat) (byte : UInt8) : Nat :=
  (value * 10 + (byte.toNat - 0x30)) % UInt32.size

/-- A digit of a count or a length, or the CR behind it. -/
def digitOrCr (value : Option Nat) (byte : UInt8) (digit cr : Nat → Parsed) : Parsed :=
  match value with
  | none => if isDigitByte byte then digit (addDigit 0 byte) else .failed
  | some value =>
      if isDigitByte byte then digit (addDigit value byte)
      else if byte = 0x0d then cr value
      else .failed

/-- The loop of `parse_name` before its next byte. -/
def parseName (name : Range) (position size : Nat) : Parsed :=
  if position + 2 = size then .more (.inlineNameEnd name) else .more (.inlineName name)

/-- The arguments start behind a name that is not the end of the data. -/
def nameParsed (name : Range) (position size : Nat) : Parsed :=
  if position = size then .command name [] true else .more (.inlineArgument name [])

/-- The end of the loop of `parse_name`. -/
def nameEnded (name : Range) (position size : Nat) : Parsed :=
  if position + 2 = size then .more (.inlineNameEnd name) else nameParsed name position size

/-- The end of the inner loop of `parse_arguments`. -/
def argumentEnded (name : Range) (args : List Range) (argument : Range) (position size : Nat) :
    Parsed :=
  if position + 2 = size then .more (.inlineArgumentEnd name (args ++ [argument]))
  else if args.length + 1 = respInlineArgumentCount then .overflow
  else .more (.inlineArgument name (args ++ [argument]))

/-- The inner loop of `parse_arguments` behind a byte. -/
def parseArgument (name : Range) (args : List Range) (argument : Range) (byte : UInt8)
    (position size : Nat) : Parsed :=
  if byte = 0x20 ∨ position + 2 = size then argumentEnded name args argument position size
  else .more (.inlineRest name args argument)

/-- `PARSE_COMMAND(type)`; `rest` is what follows it. -/
def parseCommand (byte : UInt8) (offset position size : Nat) (rest : Parsed) : Parsed :=
  if byte = 0x2a then .more (.count none)
  else if isAlnum byte then parseName ⟨offset, 1⟩ position size
  else rest

/-- What a stage makes of the byte it took. -/
def Stage.nextByte (stage : Stage) (offset position size : Nat) (byte : UInt8) : Parsed :=
  match stage with
  | .type =>
      parseCommand byte offset position size
        (if byte = 0x0d then .more .leadingLf else .failed)
  | .leadingLf => if byte = 0x0a then .more .leadingCr else .failed
  | .leadingCr =>
      if byte = 0x0d then .more .leadingLf else parseCommand byte offset position size .failed
  | .count value => digitOrCr value byte (fun value => .more (.count (some value)))
      fun value => .more (.countLf value)
  | .countLf value =>
      if byte = 0x0a ∧ value ≠ 0 then .more (.bulkType value []) else .failed
  | .bulkType todo done =>
      if byte = 0x24 then .more (.bulkLength todo done none) else .failed
  | .bulkLength todo done value =>
      digitOrCr value byte (fun value => .more (.bulkLength todo done (some value)))
        fun value => .more (.bulkLf todo done value)
  | .bulkLf todo done length =>
      if byte = 0x0a then .more (.bulkData todo done length) else .failed
  | .inlineName name =>
      if byte = 0x20 then nameEnded name position size
      else parseName { name with length := name.length + 1 } position size
  | .inlineArgument name args => parseArgument name args ⟨offset, 1⟩ byte position size
  | .inlineRest name args argument =>
      if byte = 0x20 then argumentEnded name args argument position size
      else parseArgument name args { argument with length := argument.length + 1 } byte
        position size
  | .bulkData _ _ _ | .bulkEnd _ _ | .inlineNameEnd _ | .inlineArgumentEnd _ _ => .failed

/-- The bulk strings of a command are its name and its arguments. -/
def bulkParsed (todo : Nat) (done : List Range) : Parsed :=
  if todo = 1 then
    match done with
    | name :: args => .command name args false
    | [] => .failed
  else .more (.bulkType (todo - 1) done)

/-- What a stage makes of the bytes it took from `offset` on; `none` when it got
fewer than it asked for. -/
def Stage.next (stage : Stage) (offset position size : Nat) (taken : Option Bytes) : Parsed :=
  match stage, taken with
  | .inlineName name, none => nameEnded name position size
  | _, none => .failed
  | .bulkData todo done length, some _ => .more (.bulkEnd todo (done ++ [⟨offset, length⟩]))
  | .bulkEnd todo done, some bytes => if bytes = crlf then bulkParsed todo done else .failed
  | .inlineNameEnd name, some bytes =>
      if bytes = crlf then nameParsed name position size else .failed
  | .inlineArgumentEnd name args, some bytes =>
      if bytes = crlf then .command name args true else .failed
  | stage, some [byte] => stage.nextByte offset position size byte
  | _, some _ => .failed

/-! ## Well-formed commands -/

/-- A name, and the arguments behind it. -/
abbrev CommandData := Bytes × List Bytes

/-- The bulk strings of a command. -/
def CommandData.strings (command : CommandData) : List Bytes := command.1 :: command.2

/-- A RESP array of bulk strings. -/
def encodeCommand (command : CommandData) : Bytes :=
  text "*" ++ decimal command.strings.length ++ crlf ++ command.strings.flatMap createRespString

/-- The counts and lengths of the command are numbers of 32 bits. -/
def CommandData.Fits (command : CommandData) : Prop :=
  command.strings.length < UInt32.size ∧ ∀ string ∈ command.strings, string.length < UInt32.size

end TellyDB.Resp
