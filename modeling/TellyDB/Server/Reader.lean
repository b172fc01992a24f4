import TellyDB.Lib.Transition
import TellyDB.Resp.Parser
import Mathlib.Logic.Function.Basic

/-!
Owns the reading of one client: its read buffers, `take_n_bytes`,
`read_from_socket` and `read_command`, beside the transaction thread, which
executes the transactions whose arguments point into those buffers.

Addresses are allocation numbers, so that no address is handed out twice, and
all allocations but those of `add_transaction` succeed. A function is `none`
where the source uses or frees memory that is freed, counts past an `int32_t`, or
waits for bytes that do not come.
-/

namespace TellyDB.Server.Reader

open Resp

/-! ## Memory -/

/-- `QueryBuffer`. -/
structure QueryBuffer where
  data : Nat
  size : Nat
  refcount : Nat
deriving DecidableEq

/-- `RESP_BUF_SIZE`. -/
def respBufSize : Nat := 4096

/-- The bytes of a block at a range. -/
def readRange (content : Nat → UInt8) (range : Range) : Bytes :=
  (List.range range.length).map fun index => content (range.offset + index)

/-- A block after bytes were written from `offset` on. -/
def writeBytes (content : Nat → UInt8) (offset : Nat) (bytes : Bytes) : Nat → UInt8 :=
  fun index =>
    if offset ≤ index then (bytes[index - offset]?).getD (content index) else content index

/-- A `string_t`: a range of a block. -/
structure Pointer where
  block : Nat
  range : Range
deriving DecidableEq

/-- A command that was parsed, with the bytes it had then. -/
structure Command where
  name : Pointer
  args : List Pointer
  data : CommandData

/-- A transaction that waits for its execution, with the bytes its arguments had
when they were parsed. -/
structure Queued where
  args : List Pointer
  parsed : List Bytes
  readBuf : Nat

/-! ## The reader -/

/-- What the socket gives until it is drained (EAGAIN), or, when it is `failed`,
until `read` returns an error. To a TLS client, which asks again when it is drained,
a socket gives one segment, and nothing more for now. -/
structure Segment where
  bytes : Bytes
  failed : Bool

/-- What the I/O thread of the client is doing between two steps: nothing, in a
parser, behind `get_command_data`, or behind the check for the end of the
buffer, where `more` is false once `size` is `-1`. -/
inductive Activity where
  | idle
  | parsing (stage : Stage)
  | parsed (command : Command)
  | ready (command : Command) (more : Bool)

/-- `known` are the names of `get_command_index`. `garbage` is what a new block
holds. -/
structure Config where
  known : Bytes → Bool
  garbage : Nat → Nat → UInt8

/-- The client, its memory, and the transactions it has in the queue or in a
waiting block. `position` is `at`. -/
structure State where
  blocks : Nat → Option (Nat → UInt8)
  buffers : Nat → Option QueryBuffer
  nextAddress : Nat
  readBuf : Nat
  connected : Bool
  ssl : Bool
  locked : Bool
  closing : Bool
  socket : List Segment
  activity : Activity
  position : Nat
  size : Nat
  pending : List Queued
  handed : List CommandData

namespace State

/-- `client->read_buf`. -/
def current (state : State) : Option QueryBuffer := state.buffers state.readBuf

def setBuffer (state : State) (address : Nat) (buffer : Option QueryBuffer) : State :=
  { state with buffers := Function.update state.buffers address buffer }

def setBlock (state : State) (address : Nat) (block : Option (Nat → UInt8)) : State :=
  { state with blocks := Function.update state.blocks address block }

/-- The bytes a `string_t` refers to now. -/
def read (state : State) (pointer : Pointer) : Option Bytes :=
  (state.blocks pointer.block).map fun content => readRange content pointer.range

end State

/-- A new `QueryBuffer` for the client. -/
def allocateBuffer (config : Config) (state : State) : State :=
  let address := state.nextAddress
  { (state.setBlock address (some (config.garbage address))).setBuffer address
      (some ⟨address, respBufSize, 1⟩) with
    nextAddress := address + 1
    readBuf := address }

/-- A buffer that transactions still refer to is left to them. -/
def refreshBuffer (config : Config) (state : State) : Option State := do
  let buffer ← state.current
  if 1 < buffer.refcount then
    let left := state.setBuffer state.readBuf
      (some { buffer with refcount := buffer.refcount - 1 })
    some (allocateBuffer config left)
  else some state

/-- The end of one reference to a buffer; the last one frees it. -/
def releaseBuffer (state : State) (address : Nat) : Option State := do
  let buffer ← state.buffers address
  if buffer.refcount = 1 then some ((state.setBuffer address none).setBlock buffer.data none)
  else some (state.setBuffer address (some { buffer with refcount := buffer.refcount - 1 }))

/-- What `read` puts into the buffer, whether `read_from_socket` returns its count,
and what is left in the socket. -/
structure Reading where
  bytes : Bytes
  succeeded : Bool
  socket : List Segment

def readSegments (socket : List Segment) (nbytes : Nat) : Reading :=
  match socket with
  | [] => ⟨[], true, []⟩
  | segment :: rest =>
      if nbytes ≤ segment.bytes.length then
        ⟨segment.bytes.take nbytes, true,
          { segment with bytes := segment.bytes.drop nbytes } :: rest⟩
      else ⟨segment.bytes, !segment.failed, rest⟩

/-- The loop of `SSL_read` goes on: on `SSL_ERROR_WANT_READ` it asks again. -/
def Reading.polls (reading : Reading) (nbytes : Nat) : Bool :=
  reading.succeeded && decide (reading.bytes.length < nbytes)

/-- `read_from_socket(client, client->read_buf->data + offset, nbytes)`; `none` for
`-1`. There is no outcome where it does not return. -/
def readFromSocket (state : State) (offset nbytes : Nat) : Option (State × Option Nat) := do
  let buffer ← state.current
  let content ← state.blocks buffer.data
  let reading := readSegments state.socket nbytes
  if state.ssl && reading.polls nbytes then none
  else
    let state := state.setBlock buffer.data (some (writeBytes content offset reading.bytes))
    some ({ state with socket := reading.socket },
      if reading.succeeded then some reading.bytes.length else none)

/-- `realloc` of the data of the read buffer; `moved` when it gets another address. -/
def growBuffer (config : Config) (state : State) (required : Nat) (moved : Bool) :
    Option State := do
  let buffer ← state.current
  let content ← state.blocks buffer.data
  if moved then
    let address := state.nextAddress
    let kept := fun index =>
      if index < buffer.size then content index else config.garbage address index
    let state := (state.setBlock buffer.data none).setBlock address (some kept)
    some { state.setBuffer state.readBuf (some { buffer with data := address, size := required })
      with nextAddress := address + 1 }
  else some (state.setBuffer state.readBuf (some { buffer with size := required }))

/-- `INT32_MAX`. -/
def int32Max : Nat := 0x7fffffff

/-- `take_n_bytes`, with the offset of the bytes it took; `none` when it got fewer. -/
def takeNBytes (config : Config) (state : State) (n : Nat) (moved : Bool) :
    Option (State × Option Nat) := do
  let offset := state.position
  let remaining := state.size - offset
  if n ≤ remaining then some ({ state with position := offset + n }, some offset)
  else
    let buffer ← state.current
    let required := state.size + (n - remaining)
    if int32Max < required then none
    else
      let state ← if buffer.size < required then growBuffer config state required moved
        else some state
      let (state, count) ← readFromSocket state (offset + remaining) (n - remaining)
      if count.getD 0 = 0 then some (state, none)
      else
        some ({ state with size := state.size + (n - remaining), position := offset + n },
          some offset)

/-- The NUL that `parse_inline_command` puts behind a string; it may not leave the buffer. -/
def terminateString (state : State) (range : Range) : Option State := do
  let buffer ← state.current
  let content ← state.blocks buffer.data
  let behind := range.offset + range.length
  if behind < buffer.size then
    some (state.setBlock buffer.data (some (writeBytes content behind [0])))
  else none

def terminateStrings (state : State) : List Range → Option State
  | [] => some state
  | range :: rest => do
      let state ← terminateString state range
      terminateStrings state rest

/-- The end of a parser: offsets become pointers. -/
def resolve (state : State) (name : Range) (args : List Range) : Option State := do
  let buffer ← state.current
  let content ← state.blocks buffer.data
  some { state with
    activity := .parsed {
      name := ⟨buffer.data, name⟩
      args := args.map fun argument => ⟨buffer.data, argument⟩
      data := (readRange content name, args.map (readRange content)) } }

/-! ## Steps -/

inductive Action where
  /-- `read_command` starts. -/
  | start
  /-- A parser takes its next bytes. -/
  | take (moved : Bool)
  /-- The check for the end of the buffer, behind `get_command_data`. -/
  | checkEnd
  /-- The rest of the loop of `read_command`. -/
  | deliver (allocated : Bool)
  /-- A transaction is executed and removed, or removed with its block. -/
  | execute (index : Nat)
  /-- Another client locks or unlocks this one, or this one is removed. -/
  | lock (locked : Bool)
  | disconnect

/-- The head of `read_command`. -/
def start (config : Config) (state : State) : Option State :=
  match state.activity with
  | .idle => do
      let state ← refreshBuffer config state
      let buffer ← state.current
      let (state, size) ← readFromSocket state 0 buffer.size
      match size with
      | none => some state
      | some 0 => some { state with closing := true }
      | some size => some { state with activity := .parsing .type, position := 0, size := size }
  | _ => none

/-- One `take_n_bytes` of a parser, and what the parser makes of it. -/
def take (config : Config) (state : State) (moved : Bool) : Option State :=
  match state.activity with
  | .parsing stage => do
      let (state, offset) ← takeNBytes config state stage.request moved
      let buffer ← state.current
      let content ← state.blocks buffer.data
      let taken := offset.map fun offset => readRange content ⟨offset, stage.request⟩
      match stage.next (offset.getD state.position) state.position state.size taken with
      | .more stage => some { state with activity := .parsing stage }
      | .command name args inline => do
          let state ← if inline then terminateStrings state (name :: args) else some state
          resolve state name args
      | .failed => some { state with activity := .parsing .type }
      | .overflow => none
  | _ => none

/-- The branch of `read_command` for data that ends with the command. -/
def checkEnd (config : Config) (state : State) : Option State :=
  match state.activity with
  | .parsed command => do
      let buffer ← state.current
      if state.size = state.position then
        if state.size ≠ buffer.size then some { state with activity := .ready command false }
        else do
          let state ← refreshBuffer config state
          let buffer ← state.current
          let (state, size) ← readFromSocket state 0 buffer.size
          some { state with
            activity := .ready command size.isSome, position := 0, size := size.getD 0 }
      else some { state with activity := .ready command true }
  | _ => none

/-- `add_transaction`, as far as the arguments are concerned. -/
def addTransaction (state : State) (command : Command) : Option State := do
  let buffer ← state.current
  let referred := state.setBuffer state.readBuf
    (some { buffer with refcount := buffer.refcount + 1 })
  some { referred with
    pending := state.pending ++ [⟨command.args, command.data.2, state.readBuf⟩] }

/-- The rest of the loop of `read_command`; when `add_transaction` fails, it returns. -/
def deliver (config : Config) (state : State) (allocated : Bool) : Option State :=
  match state.activity with
  | .ready command more =>
      let looped : State := { state with
        activity := if more then .parsing .type else .idle }
      if state.locked then some looped
      else do
        let name ← state.read command.name
        if config.known name then do
          let args ← command.args.mapM state.read
          let handed : State := { looped with handed := state.handed ++ [(name, args)] }
          if allocated then addTransaction handed command
          else some { handed with activity := .idle }
        else some looped
  | _ => none

/-- `remove_transaction_block`, as far as the arguments are concerned. -/
def execute (state : State) (index : Nat) : Option State := do
  let transaction ← state.pending[index]?
  releaseBuffer { state with pending := state.pending.eraseIdx index } transaction.readBuf

/-- `free_client`, as far as the read buffer is concerned. -/
def disconnect (state : State) : Option State :=
  if state.connected then releaseBuffer { state with connected := false } state.readBuf else none

def step (config : Config) (state : State) : Action → Option State
  | .start => if state.connected then start config state else none
  | .take moved => if state.connected then take config state moved else none
  | .checkEnd => if state.connected then checkEnd config state else none
  | .deliver allocated => if state.connected then deliver config state allocated else none
  | .execute index => execute state index
  | .lock locked => some { state with locked := locked }
  | .disconnect => disconnect state

/-- A client without TLS that was just added. -/
def connected (config : Config) (socket : List Segment) : State where
  blocks := Function.update (fun _ => none) 0 (some (config.garbage 0))
  buffers := Function.update (fun _ => none) 0 (some ⟨0, respBufSize, 1⟩)
  nextAddress := 1
  readBuf := 0
  connected := true
  ssl := false
  locked := false
  closing := false
  socket := socket
  activity := .idle
  position := 0
  size := 0
  pending := []
  handed := []

end TellyDB.Server.Reader
