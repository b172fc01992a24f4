import TellyDB.Commands.Data.Entry

/-!
Owns the commands of `commands/list/` on the keys of a database. Allocations
succeed.
-/

namespace TellyDB.Commands.Data

open Resp Server Database.Keyspace
open Database (Scalar)

variable (mpf : Mpf)

/-- `LPUSH` and `RPUSH`. -/
def runPush (name : String) (insert : ListValue → Scalar → ListValue) : Run :=
  fun entry data =>
    match entry.args with
    | key :: first :: rest =>
        let push (list : ListValue) :=
          (first :: rest).foldl (fun list input => insert list (pushedValue mpf input)) list
        let reply := entry.answer (.integer (first :: rest).length)
        match getData data key.bytes with
        | some kv =>
            match kv.value with
            | .list list => some (changeValue data key.bytes kv (.list (push list)), reply)
            | _ => some (data, entry.answer (.invalidTypeError name))
        | none => do
            let data ← setData data none key.bytes (.list (push ListValue.llCreate)) none
            some (data, reply)
    | _ => some (data, entry.answer (.wrongArgumentError name))

/-- `LPUSH`. -/
def runLpush : Run := runPush mpf "LPUSH" ListValue.llInsertFront

/-- `RPUSH`. -/
def runRpush : Run := runPush mpf "RPUSH" ListValue.llInsertBack

/-- The reply of `LPOP` and `RPOP`: for a client that is connected they read the node at
`pointer`, which must not be NULL. -/
def popReply (entry : Entry) (pointer : Option Scalar) : Option Reply :=
  match entry.client with
  | none => some .empty
  | some _ => do
      let value ← pointer
      let element ← writeScalar value
      some (.element element)

/-- `LPOP` and `RPOP`. A list of one node is deleted with its key, and any other removal must
succeed. -/
def runPop (name : String) (pointer : ListValue → Option Scalar)
    (remove : ListValue → Option ListValue) : Run :=
  fun entry data =>
    match entry.args with
    | [key] =>
        match getData data key.bytes with
        | none => some (data, entry.answer .null)
        | some kv =>
            match kv.value with
            | .list list => do
                let reply ← popReply entry (pointer list)
                if list.size = 1 then do
                  let (data, _) ← deleteData data key.bytes
                  some (data, reply)
                else do
                  let list ← remove list
                  some (changeValue data key.bytes kv (.list list), reply)
            | _ => some (data, entry.answer (.invalidTypeError name))
    | _ => some (data, entry.answer (.wrongArgumentError name))

/-- `LPOP`. -/
def runLpop : Run := runPop "LPOP" (fun list => list.elements.head?) ListValue.llRemoveFront

/-- `RPOP`. -/
def runRpop : Run := runPop "RPOP" (fun list => list.elements.getLast?) ListValue.llRemoveBack

/-- `LLEN`. -/
def runLlen : Run := reading fun args data =>
  match args with
  | [key] =>
      match getData data key.bytes with
      | none => some (.integer 0)
      | some kv =>
          match kv.value with
          | .list list => some (.integer list.size)
          | _ => some (.invalidTypeError "LLEN")
  | _ => some (.wrongArgumentError "LLEN")

/-- What `LINDEX` and `LTYPE` share: the node at an index, where `-1` is the last one and an index
beyond 64 bits is refused. -/
def runIndexed (name : String) (write : Scalar → Option Element) : Run := reading fun args data =>
  match args with
  | [key, index] =>
      match (getData data key.bytes).map KeyValue.value with
      | some (.list list) =>
          if !tryParseInteger index then some (.error "Second argument must be an integer")
          else
            let negative := index.bytes.head? = some 0x2d
            let string := if negative then 0x2b :: index.bytes.tail else index.bytes
            let (value, errno) := atoullS string
            if errno = .erange then some (.error "Index exceeded integer bounds")
            else do
              let node ← if negative then list.fromBack ((value + uint64Max) % 2 ^ 64)
                else list.fromFront value
              match node with
              | none => some .null
              | some value => (write value).map .element
      | _ => some (.invalidTypeError name)
  | _ => some (.wrongArgumentError name)

/-- `LINDEX`. -/
def runLindex : Run := runIndexed "LINDEX" writeScalar

/-- `LTYPE`. -/
def runLtype : Run := runIndexed "LTYPE" fun value => getRespTypeName value.type

/-- `normalize_index`. -/
def normalizeIndex (listSize : Nat) (string : Bytes) : Nat :=
  if string.head? = some 0x2d then
    let index := (atoullS (0x2b :: string.tail)).1
    if index ≥ listSize then listSize else listSize - index
  else
    let index := (atoullS string).1
    if index ≥ listSize then listSize - 1 else index

/-- `collect_values`: forwards from `start`, or backwards from `size - end - 1` with the array
filled from its end. Backwards it must not go on before the first node. -/
def collectValues (list : ListValue) (count start stop : Nat) : Option (List Scalar) :=
  if start ≤ list.size - stop then some ((list.elements.drop start).take count)
  else if count ≤ list.size - stop then
    some ((list.elements.drop (list.size - stop - count)).take count)
  else none

/-- What lies in `write_buf` behind `write_value`: it returns the constants and does not copy
them. -/
def elementInPlace : Scalar → Option Element
  | .null | .bool _ => some .stale
  | value => writeScalar value

/-- `LRANGE`, whose reply is `write_buf`. -/
def runLrange : Run := reading fun args data =>
  match args with
  | [key, startIndex, stopIndex] =>
      if !tryParseInteger startIndex then some (.error "Second argument must be an integer")
      else if !tryParseInteger stopIndex then some (.error "Third argument must be an integer")
      else
        match getData data key.bytes with
        | none => some (.array 0 [])
        | some kv =>
            match kv.value with
            | .list list =>
                let start := normalizeIndex list.size startIndex.bytes
                let stop := normalizeIndex list.size stopIndex.bytes
                if list.size = 0 ∨ start ≥ list.size ∨ stop ≤ start ∨ stop = list.size then
                  some (.array 0 [])
                else do
                  let count := stop - start + 1
                  let values ← collectValues list count start stop
                  let elements ← values.mapM elementInPlace
                  some (.array count elements)
            | _ => some (.invalidTypeError "LRANGE")
  | _ => some (.wrongArgumentError "LRANGE")

end TellyDB.Commands.Data
