import TellyDB.Commands.Data.KeyValue
import TellyDB.Commands.Data.Lists
import TellyDB.Commands.Data.Tables

/-!
Owns the commands of `commands/database/` that touch the databases, the record of
every data command, and `execute_transaction` of `transactions.c` on them.
-/

namespace TellyDB.Commands.Data

open Resp Server Database.Keyspace
open Database (Table)

variable (mpf : Mpf)

/-- `Database`. -/
structure Database where
  name : Bytes
  data : Data

/-- `server->databases`, first to last; a database is named by its place. -/
abbrev Databases : Type := List Database

/-- What a command leaves: the databases, what it returns, and the database it selects for its
client. -/
structure Outcome where
  databases : Databases
  reply : Reply
  selected : Option Nat

/-- The databases with other keys at one place. -/
def setDataAt (databases : Databases) (index : Nat) (data : Data) : Databases :=
  databases.modify index fun database => { database with data }

/-- A command on the keys of its own database. -/
def onDatabase (run : Run) (entry : Entry) (index : Nat) (databases : Databases) :
    Option Outcome := do
  let database ← databases[index]?
  let (data, reply) ← run entry database.data
  some ⟨setDataAt databases index data, reply, none⟩

/-- `get_database`: the search starts at the last database and goes on behind it. -/
def getDatabase (databases : Databases) (name : Bytes) : Option (Option Nat) :=
  match databases.getLast? with
  | none => none
  | some last => some (if last.name = name then some (databases.length - 1) else none)

/-- `DATABASE_INITIAL_SIZE`. -/
def databaseInitialSize : Nat := 1024

/-- `allocate_database`. -/
def allocateDatabase (name : Bytes) : Database := ⟨name, Table.create databaseInitialSize (by decide)⟩

/-- The size of the database that `DBSIZE` finds. -/
def databaseSize (args : List Argument) (index : Nat) (databases : Databases) :
    Option (Option Nat) :=
  match args with
  | [name] => do
      let found ← getDatabase databases name.bytes
      some ((found.bind (databases[·]?)).map fun database => database.data.count)
  | _ => do
      let database ← databases[index]?
      some (some database.data.count)

/-- `DBSIZE`. -/
def runDbsize (entry : Entry) (index : Nat) (databases : Databases) : Option Outcome :=
  match entry.client with
  | none => some ⟨databases, .empty, none⟩
  | some _ => do
      match ← databaseSize entry.args index databases with
      | some size => some ⟨databases, .integer size, none⟩
      | none => some ⟨databases, .error "Database cannot be found", none⟩

/-- `clear_database`, as `FLUSHALL` calls it. -/
def flush (database : Database) : Option Database := do
  let data ← clearDatabase database.data
  some { database with data }

/-- `FLUSHALL`. -/
def runFlushall (entry : Entry) (_ : Nat) (databases : Databases) : Option Outcome := do
  let databases ← databases.mapM flush
  some ⟨databases, entry.answer .ok, none⟩

/-- `FLUSHDB`. -/
def runFlushdb : Run := fun entry data => do
  let data ← clearDatabase data
  some (data, entry.answer .ok)

/-- `SELECT`. -/
def runSelect (entry : Entry) (_ : Nat) (databases : Databases) : Option Outcome :=
  match entry.client with
  | none => some ⟨databases, .empty, none⟩
  | some _ =>
      match entry.args with
      | [name] => do
          match ← getDatabase databases name.bytes with
          | some found => some ⟨databases, .ok, some found⟩
          | none =>
              some ⟨databases ++ [allocateDatabase name.bytes], .ok, some databases.length⟩
      | _ => some ⟨databases, .wrongArgumentError "SELECT", none⟩

/-! ## Command records -/

/-- `Command`, as far as `execute_transaction` reads it. -/
structure Command where
  permissions : Permissions
  accessDatabase : Bool
  affectDatabase : Bool
  getKeys : Option (List Argument → List Argument)
  run : Option Nat → Entry → Nat → Databases → Option Outcome

/-- The commands that take keys. -/
inductive KeyCommand where
  | append | decr | decrby | del | exist | get | incr | incrby | rename | set | type
  | hdel | hget | hgetall | hkeys | hlen | hset | htype | hvals
  | lindex | llen | lpop | lpush | lrange | ltype | rpop | rpush
deriving DecidableEq

/-- The data commands. -/
inductive DataCommand where
  | key (command : KeyCommand)
  | dbsize
  | flushall
  | flushdb
  | select
deriving DecidableEq

/-- A `get_keys` that lists the first of exactly `count` arguments. -/
def firstOf (count : Nat) (args : List Argument) : List Argument :=
  if args.length ≠ count then [] else args.take 1

/-- A `get_keys` that lists the first of two or more arguments. -/
def firstOfTwo (args : List Argument) : List Argument :=
  if args.length < 2 then [] else args.take 1

/-- The `get_keys` of HSET. Without arguments `count - 1` wraps to an odd number. -/
def firstOfPairs (args : List Argument) : List Argument :=
  match args with
  | [] | [_] => []
  | key :: fields => if fields.length % 2 ≠ 0 then [] else [key]

namespace KeyCommand

/-- The handler. -/
def run (clock : Option Nat) : KeyCommand → Run
  | .append => runAppend
  | .decr => runDecr mpf
  | .decrby => runDecrby mpf
  | .del => runDel
  | .exist => runExists
  | .get => runGet
  | .incr => runIncr mpf
  | .incrby => runIncrby mpf
  | .rename => runRename
  | .set => runSet mpf clock
  | .type => runType
  | .hdel => runHdel
  | .hget => runHget
  | .hgetall => runHgetall
  | .hkeys => runHkeys
  | .hlen => runHlen
  | .hset => runHset mpf
  | .htype => runHtype
  | .hvals => runHvals
  | .lindex => runLindex
  | .llen => runLlen
  | .lpop => runLpop
  | .lpush => runLpush mpf
  | .lrange => runLrange
  | .ltype => runLtype
  | .rpop => runRpop
  | .rpush => runRpush mpf

/-- The permissions it needs. -/
def permissions : KeyCommand → Permissions
  | .append | .decr | .decrby | .incr | .incrby | .lpop | .rpop =>
      Permission.read ||| Permission.write
  | .del | .rename | .set | .hdel | .hset | .lpush | .rpush => Permission.write
  | .exist | .type => Permission.none
  | .get | .hget | .hgetall | .hkeys | .hlen | .htype | .hvals | .lindex | .llen | .lrange
  | .ltype => Permission.read

/-- `CMD_FLAG_ACCESS_DATABASE`. -/
def accessDatabase : KeyCommand → Bool
  | .del => false
  | _ => true

/-- `CMD_FLAG_AFFECT_DATABASE`. -/
def affectDatabase : KeyCommand → Bool
  | .append | .decr | .decrby | .del | .incr | .incrby | .rename | .set | .hdel | .hset | .lpop
  | .lpush | .rpop | .rpush => true
  | _ => false

/-- `get_keys`. -/
def getKeys : KeyCommand → List Argument → List Argument
  | .decr | .del | .exist | .incr => fun args => args
  | .append | .decrby | .incrby | .rename | .hget | .htype | .lindex | .ltype => firstOf 2
  | .get | .type | .hgetall | .hkeys | .hlen | .hvals | .llen | .lpop | .rpop => firstOf 1
  | .set | .hdel | .lpush | .rpush => firstOfTwo
  | .lrange => firstOf 3
  | .hset => firstOfPairs

end KeyCommand

/-- The record of a data command. -/
def DataCommand.command : DataCommand → Command
  | .key command =>
      { permissions := command.permissions
        accessDatabase := command.accessDatabase
        affectDatabase := command.affectDatabase
        getKeys := some command.getKeys
        run := fun clock => onDatabase (command.run mpf clock) }
  | .dbsize => ⟨Permission.read, false, false, none, fun _ => runDbsize⟩
  | .flushall => ⟨Permission.write, false, true, none, fun _ => runFlushall⟩
  | .flushdb => ⟨Permission.write, false, true, none, fun _ => onDatabase runFlushdb⟩
  | .select => ⟨Permission.none, true, false, none, fun _ => runSelect⟩

/-! ## Execution -/

/-- `check_kv_expiries` on one key, and whether it went on. -/
def checkKvExpiries (clock : Option Nat) (data : Data) (key : Bytes) : Data × Bool :=
  match getData data key with
  | none => (data, true)
  | some kv =>
      match checkKvExpiry clock data key kv with
      | (data, .syscallError) => (data, false)
      | (data, .notExpired) | (data, .expired) => (data, true)

/-- `foreach_vector` over the keyspace. -/
def checkKeyspace (clock : Option Nat) : List Argument → Data → Data × Bool
  | [], data => (data, true)
  | key :: rest, data =>
      match checkKvExpiries clock data key.bytes with
      | (data, false) => (data, false)
      | (data, true) => checkKeyspace clock rest data

/-- The retries of `execute_transaction`. -/
def retryKeyspace (clock : Option Nat) (keys : List Argument) : Nat → Data → Data
  | 0, data => data
  | turns + 1, data =>
      match checkKeyspace clock keys data with
      | (data, true) => data
      | (data, false) => retryKeyspace clock keys turns data

/-- `EXPIRY_RETRY_COUNT`. -/
def expiryRetryCount : Nat := 32

/-- What `execute_transaction` does before it runs a command: it deletes the expired keys among
those that `get_keys` lists. -/
def expireKeys (clock : Option Nat) (command : Command) (args : List Argument) (index : Nat)
    (databases : Databases) : Databases :=
  match command.accessDatabase, command.getKeys with
  | true, some getKeys =>
      databases.modify index fun database =>
        { database with data := retryKeyspace clock (getKeys args) expiryRetryCount database.data }
  | _, _ => databases

/-- `execute_transaction`. The error for missing permissions is written to the client at once. -/
def executeTransaction (clock : Option Nat) (command : Command) (entry : Entry) (index : Nat)
    (databases : Databases) : Option Outcome :=
  if entry.permissions &&& command.permissions ≠ command.permissions then
    match entry.client with
    | none => none
    | some _ => some ⟨databases, .error "No permissions to execute this command", none⟩
  else command.run clock entry index (expireKeys clock command entry.args index databases)

end TellyDB.Commands.Data
