import TellyDB.Commands.Data.Entry

/-!
Owns the commands of `commands/hashtable/`. Allocations succeed.
-/

namespace TellyDB.Commands.Data

open Resp Server Database.Keyspace
open Database (Scalar Table)

variable (mpf : Mpf)

/-- The capacity that `HSET` creates a table with. -/
theorem capacity_positive : 1 ≤ 16 := by decide

/-- The loop of `HSET`: an insertion keeps a field that is present. -/
def setFields : List Argument → Table Scalar → Table Scalar
  | name :: input :: rest, table =>
      setFields rest (table.insert name.bytes (fieldValue mpf input))
  | _, table => table

/-- `HSET`. Without arguments `count - 1` wraps to an odd number. -/
def runHset : Run := fun entry data =>
  match entry.args with
  | key :: field :: rest =>
      if (field :: rest).length % 2 ≠ 0 then
        some (data, entry.answer (.wrongArgumentError "HSET"))
      else
        let reply := entry.answer (.integer ((field :: rest).length / 2))
        match getData data key.bytes with
        | some kv =>
            match kv.value with
            | .hashtable table =>
                let table := setFields mpf (field :: rest) table
                some (changeValue data key.bytes kv (.hashtable table), reply)
            | _ => some (data, entry.answer (.invalidTypeError "HSET"))
        | none => do
            let table := setFields mpf (field :: rest) (Table.create 16 capacity_positive)
            let data ← setData data none key.bytes (.hashtable table) none
            some (data, reply)
  | _ => some (data, entry.answer (.wrongArgumentError "HSET"))

/-- The loop of `HDEL`. -/
def deleteFields (names : List Argument) (table : Table Scalar) : Table Scalar :=
  names.foldl (fun table name => (table.delete name.bytes).1) table

/-- `HDEL`. -/
def runHdel : Run := fun entry data =>
  match entry.args with
  | key :: field :: rest =>
      match getData data key.bytes with
      | some kv =>
          match kv.value with
          | .hashtable table =>
              if entry.permissions &&& Permission.read = 0 then
                some (data, entry.answer (.error "Not allowed to use this command, need P_READ"))
              else
                let after := deleteFields (field :: rest) table
                let reply := entry.answer (.integer (table.count - after.count))
                let changed := changeValue data key.bytes kv (.hashtable after)
                if after.count = 0 then do
                  let (data, _) ← deleteData changed key.bytes
                  some (data, reply)
                else some (changed, reply)
          | _ => some (data, entry.answer (.invalidTypeError "HDEL"))
      | none => some (data, entry.answer (.integer 0))
  | _ => some (data, entry.answer (.wrongArgumentError "HDEL"))

/-- What the reading commands on hash tables share: the reply for an absent key, and an error
for a key of another type. -/
def onTable (name : String) (absent : Reply) (key : Argument) (data : Data)
    (body : Table Scalar → Option Reply) : Option Reply :=
  match getData data key.bytes with
  | none => some absent
  | some kv =>
      match kv.value with
      | .hashtable table => body table
      | _ => some (.invalidTypeError name)

/-- `HGET`. -/
def runHget : Run := reading fun args data =>
  match args with
  | [key, name] => onTable "HGET" .null key data fun table =>
      match table.get name.bytes with
      | some value => (writeScalar value).map .element
      | none => some .null
  | _ => some (.wrongArgumentError "HGET")

/-- `HTYPE`. -/
def runHtype : Run := reading fun args data =>
  match args with
  | [key, name] => onTable "HTYPE" .null key data fun table =>
      match table.get name.bytes with
      | some value => (getRespTypeName value.type).map .element
      | none => some .null
  | _ => some (.wrongArgumentError "HTYPE")

/-- `HLEN`, which replies with the capacity too. -/
def runHlen : Run := reading fun args data =>
  match args with
  | [key] => onTable "HLEN" .null key data fun table =>
      some (.array 2 [.count table.count, .count table.capacity])
  | _ => some (.wrongArgumentError "HLEN")

/-- The value that the `dump_hashtable` of `HGETALL` and `HVALS` writes; it writes none of a type
without one. -/
def dumpValue (value : Scalar) : List Element := (writeScalar value).toList

/-- `HGETALL`. -/
def runHgetall : Run := reading fun args data =>
  match args with
  | [key] => onTable "HGETALL" (.map 0 []) key data fun table =>
      some (.map table.count
        (table.entries.flatMap fun field => .string field.1 :: dumpValue field.2))
  | _ => some (.wrongArgumentError "HGETALL")

/-- `HKEYS`. -/
def runHkeys : Run := reading fun args data =>
  match args with
  | [key] => onTable "HKEYS" (.array 0 []) key data fun table =>
      some (.array table.count (table.entries.map fun field => .string field.1))
  | _ => some (.wrongArgumentError "HKEYS")

/-- `HVALS`. -/
def runHvals : Run := reading fun args data =>
  match args with
  | [key] => onTable "HVALS" (.array 0 []) key data fun table =>
      some (.array table.count (table.entries.flatMap fun field => dumpValue field.2))
  | _ => some (.wrongArgumentError "HVALS")

end TellyDB.Commands.Data
