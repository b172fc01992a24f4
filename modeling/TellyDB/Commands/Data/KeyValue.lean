import TellyDB.Commands.Data.Entry

/-!
Owns the commands of `commands/kv/`. A command is `none` where the source is
undefined: it uses a client that is NULL, follows a freed link or reaches
`unreachable()`. Allocations succeed.
-/

namespace TellyDB.Commands.Data

open Resp Server Database.Keyspace
open Database (Scalar Double TellyType)

variable (mpf : Mpf)

/-- `APPEND`. The length of a string has 32 bits; beyond them `memcpy` writes behind the
reallocated string. -/
def runAppend : Run := fun entry data =>
  match entry.args with
  | [key, arg] =>
      match getData data key.bytes with
      | some kv =>
          match kv.value with
          | .scalar (.str string) =>
              let string := string ++ arg.bytes
              if string.length < 2 ^ 32 then
                some (changeValue data key.bytes kv (.scalar (.str string)),
                  entry.answer (.integer string.length))
              else none
          | _ => some (data, entry.answer (.invalidTypeError "APPEND"))
      | none => do
          let data ← setData data none key.bytes (.scalar (.str arg.bytes)) none
          some (data, entry.answer (.integer arg.bytes.length))
  | _ => some (data, entry.answer (.wrongArgumentError "APPEND"))

/-! ## INCR and DECR -/

/-- One turn of the loop of `INCR` and `DECR`, with the element it writes behind the key. -/
def countKey (changeInt : Int → Int) (changeDouble : Double → Double) (key : Bytes) (data : Data) :
    Option (Data × Element) :=
  match getData data key with
  | none => do
      let data ← setData data none key (.scalar (.int 0)) none
      some (data, .int 0)
  | some kv =>
      match kv.value with
      | .scalar (.int number) =>
          let number := changeInt number
          some (changeValue data key kv (.scalar (.int number)), .int number)
      | .scalar (.double number) =>
          let number := changeDouble number
          some (changeValue data key kv (.scalar (.double number)), .double number)
      | _ => some (data, .string (text "invalid type"))

/-- The loop of `INCR` and `DECR`, with the elements it writes behind the header. -/
def countLoop (changeInt : Int → Int) (changeDouble : Double → Double) :
    List Argument → Data → Option (Data × List Element)
  | [], data => some (data, [])
  | key :: rest, data => do
      let (data, written) ← countKey changeInt changeDouble key.bytes data
      let (data, elements) ← countLoop changeInt changeDouble rest data
      some (data, .string key.bytes :: written :: elements)

/-- `INCR` and `DECR`. Both name INCR in their error, and without a client both still write the
first key into its `write_buf`. -/
def runCount (changeInt : Int → Int) (changeDouble : Double → Double) : Run := fun entry data =>
  if entry.args.length = 0 then some (data, entry.answer (.wrongArgumentError "INCR"))
  else match entry.client with
    | none => none
    | some _ => do
        let (data, elements) ← countLoop changeInt changeDouble entry.args data
        some (data, .map entry.args.length elements)

/-- `INCR`. -/
def runIncr : Run := runCount (· + 1) fun number => mpf.addUi number 1

/-- `DECR`. -/
def runDecr : Run := runCount (· - 1) fun number => mpf.subUi number 1

/-! ## INCRBY and DECRBY -/

/-- `write_value` of the value that was stored, for a client that is connected. -/
def replyStored (entry : Entry) (data : Data) (value : Scalar) : Option (Data × Reply) :=
  match entry.client with
  | none => some (data, .empty)
  | some _ => (writeScalar value).map fun element => (data, .element element)

/-- `INCRBY`. Of an absent key a double is not stored. -/
def runIncrby : Run := fun entry data =>
  match entry.args with
  | [key, input] =>
      let isInteger := tryParseInteger input
      if !isInteger && !tryParseDouble input then
        some (data, entry.answer (.error "Second argument must be an integer or double"))
      else
        match getData data key.bytes with
        | none =>
            if isInteger then do
              let value : Scalar := .int (mpzInitSetStr input.memory)
              let data ← setData data none key.bytes (.scalar value) none
              replyStored entry data value
            else some (data, entry.answer (.error "ERROR"))
        | some kv =>
            match kv.value with
            | .scalar (.int number) =>
                let value : Scalar := if isInteger then .int (number + mpzInitSetStr input.memory)
                  else .double (mpf.add (mpf.setStr input.memory) (mpf.setZ number))
                replyStored entry (changeValue data key.bytes kv (.scalar value)) value
            | .scalar (.double number) =>
                let value : Scalar := .double (mpf.add number (mpf.setStr input.memory))
                replyStored entry (changeValue data key.bytes kv (.scalar value)) value
            | _ => some (data, .invalidTypeError "INCRBY")
  | _ => some (data, entry.answer (.wrongArgumentError "INCRBY"))

/-- `DECRBY`. -/
def runDecrby : Run := fun entry data =>
  match entry.args with
  | [key, input] =>
      let isInteger := tryParseInteger input
      if !isInteger && !tryParseDouble input then
        some (data, entry.answer (.error "Second argument must be an integer or double"))
      else
        match getData data key.bytes with
        | none => do
            let value : Scalar := if isInteger then .int (-mpzInitSetStr input.memory)
              else .double (mpf.neg (mpf.setStr input.memory))
            let data ← setData data none key.bytes (.scalar value) none
            replyStored entry data value
        | some kv =>
            match kv.value with
            | .scalar (.int number) =>
                let value : Scalar := if isInteger then .int (number - mpzInitSetStr input.memory)
                  else .double (mpf.neg (mpf.sub (mpf.setStr input.memory) (mpf.setZ number)))
                replyStored entry (changeValue data key.bytes kv (.scalar value)) value
            | .scalar (.double number) =>
                let value : Scalar := .double (mpf.sub number (mpf.setStr input.memory))
                replyStored entry (changeValue data key.bytes kv (.scalar value)) value
            | _ => some (data, .invalidTypeError "DECRBY")
  | _ => some (data, entry.answer (.wrongArgumentError "DECRBY"))

/-! ## Keys -/

/-- The loop of `DEL`, with the number of keys it deleted. -/
def deleteAll : List Argument → Data → Option (Data × Nat)
  | [], data => some (data, 0)
  | key :: rest, data => do
      let (data, deleted) ← deleteData data key.bytes
      let (data, count) ← deleteAll rest data
      some (data, deleted.toNat + count)

/-- `DEL`. -/
def runDel : Run := fun entry data =>
  if entry.args.length = 0 then some (data, entry.answer (.wrongArgumentError "DEL"))
  else do
    let (data, deleted) ← deleteAll entry.args data
    some (data, entry.answer (.integer deleted))

/-- The size of `buf` in `exists.c`. -/
def existsBufferSize : Nat := 8192

/-- What `EXISTS` appends to `buf` for one key. -/
def existsLine (exist : Bool) : Bytes :=
  text (if exist then "+exists" else "+not exist") ++ crlf

/-- `EXISTS`. Nothing bounds what is appended to `buf`, which ends in a NUL. -/
def runExists : Run := reading fun args data =>
  if args.length = 0 then some (.wrongArgumentError "EXISTS")
  else
    let found := args.map fun key => (getData data key.bytes).isSome
    let existed := found.count true
    let notExisted := found.count false
    if (found.flatMap existsLine).length < existsBufferSize then
      some (.array (args.length + 2)
        (.simple ("existed key count is " ++ toString existed) ::
          .simple ("not existed key count is " ++ toString notExisted) ::
          found.map fun exist => .simple (if exist then "exists" else "not exist")))
    else none

/-- `GET`. -/
def runGet : Run := reading fun args data =>
  match args with
  | [key] =>
      match getData data key.bytes with
      | some kv => (writeValue kv.value).map .element
      | none => some .null
  | _ => some (.wrongArgumentError "GET")

/-- `RENAME`. The key is moved by an insertion, which keeps what lies under the new key. -/
def runRename : Run := fun entry data =>
  match entry.args with
  | [search, name] =>
      match getData data search.bytes with
      | none => some (data, entry.answer (.error "The new key already exists"))
      | some kv => some ((data.delete search.bytes).1.insert name.bytes kv, entry.answer .ok)
  | _ => some (data, entry.answer (.wrongArgumentError "RENAME"))

/-- `TYPE`. -/
def runType : Run := reading fun args data =>
  match args with
  | [key] =>
      match getData data key.bytes with
      | none => some .null
      | some kv => (getRespTypeName kv.value.type).map .element
  | _ => some (.wrongArgumentError "TYPE")

/-! ## SET -/

/-- `Options` of `set.c`; `expiry` is `none` where it is not enabled. -/
structure Options where
  get : Bool
  nx : Bool
  xx : Bool
  as : Bool
  expiry : Option Nat
deriving DecidableEq

/-- `Response` of `set.c`. -/
structure Response where
  input : Argument
  type : TellyType
  isInteger : Bool
  isDouble : Bool
  isTrue : Bool
deriving DecidableEq

/-- `OptionParsingCode`. -/
inductive OptionParsingCode where
  | missingExValue
  | invalidExValue
  | boundsOfExValue
  | syscallErrorForEx
  | missingPxValue
  | invalidPxValue
  | boundsOfPxValue
  | syscallErrorForPx
  | invalidTypeInAs
  | invalidOptions
  | mustBeNumber
  | mustBeBoolean
  | mustBeDouble
  | mustBeInteger
  | simultaneouslyNxXx
  | validOptions
deriving DecidableEq

/-- `parsing_code_response`. -/
def parsingCodeResponse : OptionParsingCode → Reply
  | .missingExValue => .error "There is no specified value for 'EX' argument"
  | .invalidExValue => .error "The value of 'EX' argument must be an integer"
  | .boundsOfExValue =>
      .error "The value of 'EX' argument is out of bounds of maximum-width integer"
  | .syscallErrorForEx => .error "Cannot take the current time for 'EX' argument"
  | .missingPxValue => .error "There is no specified value for 'PX' argument"
  | .invalidPxValue => .error "The value of 'PX' argument must be an integer"
  | .boundsOfPxValue =>
      .error "The value of 'PX' argument is out of bounds of maximum-width integer"
  | .syscallErrorForPx => .error "Cannot take the current time for 'PX' argument"
  | .invalidTypeInAs =>
      .error "'AS' argument must be followed by a valid type name for 'SET' command"
  | .invalidOptions => .error "Invalid argument(s) for 'SET' command"
  | .mustBeNumber => .error "The type must be double or integer for this value"
  | .mustBeBoolean => .error "The type must be boolean for this value"
  | .mustBeDouble => .error "The type must be double for this value"
  | .mustBeInteger => .error "The type must be integer for this value"
  | .simultaneouslyNxXx =>
      .error "XX and NX arguments cannot be specified simultaneously for 'SET' command"
  | .validOptions => .ok

/-- `ERANGE`. -/
def erange : Nat := 34

/-- `parse_expiry_option` with the errors of its type; `none` is its `unreachable()`, which every
value that passes the checks reaches. -/
def parseExpiryOption (clock : Option Nat) (invalid bounds syscall : OptionParsingCode)
    (input : Argument) : Option OptionParsingCode :=
  if !tryParseInteger input then some invalid
  else if (atoullS input.bytes).1 = erange then some bounds
  else match clock with
    | none => some syscall
    | some _ => none

/-- `take_as_number`. -/
def takeAsNumber (response : Response) : Response :=
  let isInteger := tryParseInteger response.input
  let isDouble := tryParseDouble response.input
  let type : TellyType := if isInteger then .int else if isDouble then .double else .unknown
  { response with isInteger, isDouble, type }

/-- The `types` of `parse_options`. -/
def typeNames : List (TellyType × List String) :=
  [(.str, ["STR", "STRING"]), (.bool, ["BOOL", "BOOLEAN"]), (.null, ["NULL"]),
    (.int, ["INT", "INTEGER"]), (.double, ["DOUBLE"]), (.unknown, ["NUM", "NUMBER"])]

/-- The type that a name stands for in `types`, else the type so far. -/
def namedType (name : Argument) (type : TellyType) : TellyType :=
  match typeNames.find? fun identifier => identifier.2.any name.streq with
  | some identifier => identifier.1
  | none => type

/-- The `AS` option behind its type name. -/
def parseAsOption (name : Argument) (response : Response) : OptionParsingCode × Response :=
  let response := { response with type := namedType name response.type }
  match response.type with
  | .unknown =>
      if name.streq "NUM" || name.streq "NUMBER" then
        let response := takeAsNumber response
        if response.type = .unknown then (.mustBeNumber, response) else (.validOptions, response)
      else (.invalidTypeInAs, response)
  | .int =>
      let response := { response with isInteger := tryParseInteger response.input }
      if response.isInteger then (.validOptions, response) else (.mustBeInteger, response)
  | .double =>
      let response := { response with isDouble := tryParseDouble response.input }
      if response.isDouble then (.validOptions, response) else (.mustBeDouble, response)
  | .bool =>
      if !response.isTrue && !response.input.sstreq "false" then (.mustBeBoolean, response)
      else (.validOptions, response)
  | _ => (.validOptions, response)

/-- One turn of the loop of `parse_options`, which always returns: every option other than a
complete `AS` ends in `INVALID_OPTIONS`, whatever it set and whatever `parse_expiry_option`
returned. -/
def parseOption (clock : Option Nat) (option : Argument) (rest : List Argument)
    (options : Options) (response : Response) :
    Option (OptionParsingCode × Options × Response) :=
  let arg := option.uppercase
  if arg.streq "GET" then some (.invalidOptions, { options with get := true }, response)
  else if arg.streq "NX" then
    if options.xx then some (.simultaneouslyNxXx, options, response)
    else some (.invalidOptions, { options with nx := true }, response)
  else if arg.streq "XX" then
    if options.nx then some (.simultaneouslyNxXx, options, response)
    else some (.invalidOptions, { options with xx := true }, response)
  else if arg.streq "EX" then
    match rest with
    | [] => some (.missingExValue, options, response)
    | input :: _ => do
        let _ ← parseExpiryOption clock .invalidExValue .boundsOfExValue .syscallErrorForEx input
        some (.invalidOptions, { options with expiry := some 0 }, response)
  else if arg.streq "PX" then
    match rest with
    | [] => some (.missingPxValue, options, response)
    | input :: _ => do
        let _ ← parseExpiryOption clock .invalidExValue .boundsOfExValue .syscallErrorForEx input
        some (.invalidOptions, { options with expiry := some 0 }, response)
  else if arg.streq "AS" then
    match rest with
    | [] => some (.invalidOptions, { options with as := true }, response)
    | name :: _ =>
        let (code, response) := parseAsOption name.uppercase response
        some (code, { options with as := true }, response)
  else some (.invalidOptions, options, response)

/-- `parse_options` of the arguments behind the value. -/
def parseOptions (clock : Option Nat) (args : List Argument) (options : Options)
    (response : Response) : Option (OptionParsingCode × Options × Response) :=
  match args with
  | [] => some (.validOptions, options, response)
  | option :: rest => parseOption clock option rest options response

/-- The type and the `value` that `SET` makes of its input; `none` is a NULL `value`. -/
def setValue (options : Options) (response : Response) : TellyType × Option Scalar :=
  let isInteger := if options.as then response.isInteger else tryParseInteger response.input
  let isDouble := if options.as then response.isDouble else tryParseDouble response.input
  let type (otherwise : TellyType) := if options.as then response.type else otherwise
  -- the byte behind the input becomes a NUL before a number is read
  let terminated := response.input.bytes ++ [0]
  if isInteger || isDouble then
    let type := type (if isInteger then .int else .double)
    match type with
    | .int => (type, some (.int (mpzInitSetStr terminated)))
    | .double => (type, some (.double (mpf.setStr terminated)))
    | .str => (type, some (.str response.input.bytes))
    | _ => (type, none)
  else if response.isTrue || response.input.sstreq "false" then
    let type := type .bool
    match type with
    | .bool => (type, some (.bool response.isTrue))
    | .str => (type, some (.str response.input.bytes))
    | _ => (type, none)
  else if response.input.sstreq "null" then
    let type := type .null
    match type with
    | .str => (type, some (.str response.input.bytes))
    | _ => (type, none)
  else (type .str, some (.str response.input.bytes))

/-- What a `Value` of this type and data holds: nothing reads the data of a null, and every other
type reads its own. -/
def storedScalar : TellyType × Option Scalar → Option Scalar
  | (.null, _) => some .null
  | (_, none) => none
  | (type, some value) => if value.type = type then some value else none

/-- `SET` behind its options. -/
def runSetWith (options : Options) (response : Response) (key : Argument) : Run :=
  fun entry data =>
    let res := getData data key.bytes
    if options.nx && res.isSome then some (data, entry.answer .null)
    else if options.xx && res.isNone then some (data, entry.answer .null)
    else if options.get then
      if entry.permissions &&& Permission.read = 0 then
        some (data, entry.answer (.error "Not allowed to use this command, need P_READ"))
      else do
        let value ← storedScalar (setValue mpf options response)
        let data ← setData data res key.bytes (.scalar value) options.expiry
        match res with
        | some _ => replyStored entry data value
        | none => some (data, entry.answer .null)
    else do
      let value ← storedScalar (setValue mpf options response)
      let data ← setData data res key.bytes (.scalar value) options.expiry
      some (data, entry.answer .ok)

/-- `SET`. -/
def runSet (clock : Option Nat) : Run := fun entry data =>
  match entry.args with
  | key :: input :: rest => do
      let (code, options, response) ← parseOptions clock rest ⟨false, false, false, false, none⟩
        ⟨input, .unknown, false, false, input.sstreq "true"⟩
      if code = .validOptions then runSetWith mpf options response key entry data
      else some (data, entry.answer (parsingCodeResponse code))
  | _ => some (data, entry.answer (.wrongArgumentError "SET"))

end TellyDB.Commands.Data
