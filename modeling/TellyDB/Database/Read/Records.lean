import TellyDB.Database.Read.Types
import TellyDB.Utils.Strings

/-!
Owns `database/read/read.c`: how a record, a database and the databases of a
file are read, where every allocation succeeds. Loops that end at a byte they
read count their turns against `fuel`.

Beside what the source fails on, a read is `none` where the source leaves its
memory: at a byte that is no type, and at a collection inside a collection,
whose element count would be stored through NULL.
-/

namespace TellyDB.Database.Read

open Resp Utils Lib.Positional Lib.ByteSource

variable {σ : Type} (source : Source σ UInt8)

/-- `collect_bytes` of a 64-bit number. -/
def collectUint64 : Collecting σ Nat := do
  let bytes ← source.request 8
  pure (ofLittleEndian bytes)

/-- `collect_bytes` of a type. -/
def collectType : Collecting σ TellyType := do
  let byte ← collectByte source
  TellyType.ofCode byte

/-- `allocate_value` and `COLLECT_PRIMARY_TYPES` for a value that is no collection. -/
def collectPrimary : TellyType → Collecting σ (Scalar × Nat)
  | .unknown => pure (.unknown, 0)
  | .null => pure (.null, 0)
  | .int => do
      let (number, collected) ← collectInteger source
      pure (.int number, collected)
  | .double => do
      let (number, collected) ← collectDouble source
      pure (.double number, collected)
  | .str => do
      let (string, collected) ← collectString source
      pure (.str string, collected)
  | .bool => do
      let byte ← collectByte source
      pure (.bool (byte != 0), 1)
  | .hashtable | .list => fun _ => none

/-- `insert_into_hashtable` of a record or a field, which gives no room to a second one of the
same key. As in `Table.insert`, a table that grows is given a cleared array. -/
def insertLoaded {V : Type} (table : HashTable Bytes V) (key : Bytes) (value : V) :
    Option (HashTable Bytes V) :=
  (table.insertIntoHashtable (2 * table.capacity) (fun _ => none) key value).map Prod.fst

/-- The loop of `collect_kv` over the fields of a hash table, up to the byte `0x17`. -/
def collectFields : Nat → HashTable Bytes Scalar → Nat →
    Collecting σ (HashTable Bytes Scalar × Nat)
  | 0, _, _ => fun _ => none
  | turns + 1, table, collected => do
      let byte ← collectByte source
      if byte = 0x17 then pure (table, collected)
      else do
        let (name, nameLength) ← collectString source
        let type ← TellyType.ofCode byte
        let (value, valueLength) ← collectPrimary source type
        let table ← insertLoaded table name value
        collectFields turns table (collected + nameLength + 1 + valueLength)

/-- The loop of `collect_kv` over the elements of a list. -/
def collectElements : Nat → Nat → Collecting σ (List Scalar × Nat)
  | 0, collected => pure ([], collected)
  | count + 1, collected => do
      let type ← collectType source
      let (element, length) ← collectPrimary source type
      let (elements, collected) ← collectElements count (collected + length)
      pure (element :: elements, collected)

/-- `collect_kv`. -/
def collectKv (fuel : Nat) : Collecting σ (KeyValue × Nat) := do
  let (key, keyLength) ← collectString source
  let collected := keyLength + 1
  let type ← collectType source
  match type with
  | .hashtable => do
      let capacity ← collectUint64 source
      let (table, collected) ← collectFields source fuel
        (HashTable.createHashtable capacity stringKeys) (collected + 8 + 1)
      pure (⟨key, .hashtable table⟩, collected)
  | .list => do
      let count ← collectUint64 source
      let (elements, collected) ← collectElements source count (collected + (8 + count))
      pure (⟨key, .list elements⟩, collected)
  | .unknown | .null | .int | .double | .str | .bool => do
      let (value, length) ← collectPrimary source type
      pure (⟨key, .scalar value⟩, collected + length)

/-- `DATABASE_INITIAL_SIZE`. -/
def databaseInitialSize : Nat := 1024

/-- `Database`, with the capacity and the keys of its table. -/
structure LoadedDatabase where
  name : Bytes
  data : HashTable Bytes KeyValue

/-- The loop of `collect_database` over the records. -/
def collectRecords (fuel : Nat) : Nat → HashTable Bytes KeyValue → Nat →
    Collecting σ (HashTable Bytes KeyValue × Nat)
  | 0, data, collected => pure (data, collected)
  | count + 1, data, collected => do
      let (kv, length) ← collectKv source fuel
      let data ← insertLoaded data kv.key kv
      collectRecords fuel count data (collected + length)

/-- `collect_database`, with the entry count of the header. -/
def collectDatabase (fuel : Nat) : Collecting σ (LoadedDatabase × Nat × Nat) := do
  let count ← collectUint64 source
  let (name, nameLength) ← collectString source
  let needed := 2 ^ getBitCount count
  let capacity := if databaseInitialSize < needed then needed else databaseInitialSize
  let (data, collected) ← collectRecords source fuel count
    (HashTable.createHashtable capacity stringKeys) (nameLength + 8)
  pure (⟨name, data⟩, count, collected)

/-- The loop of `read_file`, which ends when the collected bytes are those of the file. -/
def collectDatabases (fuel fileSize : Nat) : Nat → Nat → Collecting σ (List LoadedDatabase)
  | 0, _ => fun _ => none
  | turns + 1, collected => do
      let (database, _, length) ← collectDatabase source fuel
      if collected + length = fileSize then pure [database]
      else do
        let databases ← collectDatabases fuel fileSize turns (collected + length)
        pure (database :: databases)

end TellyDB.Database.Read
