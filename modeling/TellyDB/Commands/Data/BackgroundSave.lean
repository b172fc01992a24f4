import TellyDB.Commands.Data.Runs
import TellyDB.Database.Codec.Persistence
import TellyDB.Lib.Interleaving

/-!
Owns the thread of BGSAVE: `save_data` in steps, between which the transaction thread
executes commands on the tables that it reads. No allocation and no write fails.
-/

namespace TellyDB.Commands.Data.BackgroundSave

open Resp Lib Interleaving Transition TellyDB.Database.File
open TellyDB.Database.Codec (ServerState Restores stateLength DatabaseStored)
open TellyDB.Database.Keyspace (Value KeyValue)
open TellyDB.Database.Read (LoadedDatabase)

/-! ## What it reads -/

/-- The links of a list end at its last node. -/
def walkable : Value → Bool
  | .list list => !list.backFreed
  | .scalar _ | .hashtable _ => true

/-- A value as `size.c` and `generate.c` find it. -/
def savedValue : Value → TellyDB.Database.Value
  | .scalar value => .scalar value
  | .hashtable table => .hashtable table.table
  | .list list => .list list.elements

/-- An element of a table as they find it. -/
def savedEntry (element : Bytes × KeyValue) : Bytes × TellyDB.Database.KeyValue :=
  (element.1, ⟨element.1, savedValue element.2.value⟩)

/-- A database as they find it. -/
def savedDatabase (database : Database) : LoadedDatabase where
  name := database.name
  data := {
    capacity := database.data.capacity
    count := database.data.count
    elements := fun slot => (database.data.table.elements slot).map savedEntry
    keys := database.data.table.keys }

@[simp] theorem savedDatabase_elements (database : Database) (slot : Nat) :
    (savedDatabase database).data.elements slot =
      (database.data.table.elements slot).map savedEntry := rfl

/-! ## Its steps -/

/-- Where the thread stands in a turn of the loop over the databases: in front of it, in the
`foreach_hashtable` of `get_maximum_keyvalue_size`, or in that of `dump_into_file`. -/
inductive Stage where
  | node
  | sizing (slot dataSize : Nat)
  | dumping (slot dataSize : Nat)
deriving DecidableEq

/-- The thread at the database of an index. It is lost where `save_data` is undefined: outside of
a buffer, behind a link to a freed node, or at a generator that is NULL. -/
inductive Thread where
  | saving (index : Nat) (stage : Stage) (state : State)
  | done (file : Bytes)
  | lost

/-- It goes on where it is not lost. -/
def Thread.goOn (index : Nat) (stage : Stage) : Option State → Thread
  | some state => .saving index stage state
  | none => .lost

/-- What `save_data` finds beside the databases. -/
structure Found where
  serverAge : Nat
  passwords : List Password
  file : Bytes

/-- `save_data` in front of the databases. -/
def start (capacity : Nat) (found : Found) : Thread :=
  .goOn 0 .node do
    let state ← saveHeaders capacity found.serverAge found.passwords.length
    savePasswords always state found.passwords

/-- The count and the name of a database. -/
def storeHeader (state : State) (database : Database) : Option State := do
  let block ← storeBlock state.block state.blockSize
    (Positional.littleEndian 8 database.data.count)
  let name := generateStringValue database.name
  let block ← storeBlock block (state.blockSize + 8) name
  some { state with
    block, blockSize := state.blockSize + 8 + name.length
    size := state.size + (name.length + 8) }

/-- `get_maximum_keyvalue_size` of the slot, or the end of its loop. -/
def sizeSlot (database : Database) (index slot dataSize : Nat) (state : State) : Thread :=
  if slot < database.data.capacity then
    match database.data.table.elements slot with
    | none => .saving index (.sizing (slot + 1) dataSize) state
    | some element =>
        if walkable element.2.value then
          .saving index
            (.sizing (slot + 1) (getMaximumKeyvalueSize (savedEntry element) dataSize)) state
        else .lost
  else if dataSize = 0 then .saving (index + 1) .node state
  else .saving index (.dumping 0 dataSize) state

/-- `dump_into_file`, with a buffer of `dataSize` bytes for the record. -/
def dumpIntoFile (dataSize : Nat) (state : State) (element : Bytes × KeyValue) : Option State :=
  if walkable element.2.value ∧ filledLength (savedEntry element).2 ≤ dataSize then do
    let record ← generateValue (savedEntry element).2
    dumpRecord always state record
  else none

/-- `dump_into_file` of the slot, or the end of its loop. -/
def dumpSlot (database : Database) (index slot dataSize : Nat) (state : State) : Thread :=
  if slot < database.data.capacity then
    match database.data.table.elements slot with
    | none => .saving index (.dumping (slot + 1) dataSize) state
    | some element =>
        .goOn index (.dumping (slot + 1) dataSize) (dumpIntoFile dataSize state element)
  else .saving (index + 1) .node state

/-- The end of `save_data`: the last block, and the cut of the file. -/
def finish (file : Bytes) (state : State) : Bytes :=
  let state := flushBlock always state
  truncate (overwrite file state.written.flatten) state.size

/-- The next step of the thread. No command takes a database out of the list. -/
def save (file : Bytes) (databases : Databases) : Thread → Thread
  | .saving index stage state =>
      match databases[index]?, stage with
      | none, .node => .done (finish file state)
      | none, _ => .lost
      | some database, .node => .goOn index (.sizing 0 0) (storeHeader state database)
      | some database, .sizing slot dataSize => sizeSlot database index slot dataSize state
      | some database, .dumping slot dataSize => dumpSlot database index slot dataSize state
  | .done file => .done file
  | .lost => .lost

/-- The thread has nothing to do any more. -/
def Thread.ended : Thread → Bool
  | .saving _ _ _ => false
  | .done _ | .lost => true

/-! ## The two threads -/

/-- A step of this thread, or a command of the transaction thread. -/
abbrev Turn : Type := Interleaving.Turn Request

abbrev Server : Type := Shared Databases Thread

def step (mpf : Mpf) (file : Bytes) : Server → Turn → Option Server :=
  Interleaving.step (save file) (Data.step mpf)

/-- The server when the thread begins. -/
def begin (capacity : Nat) (found : Found) (databases : Databases) : Server :=
  ⟨databases, start capacity found⟩

/-- The file holds these databases: each with as many records as it announces, and a start reads
the databases from it. -/
def HoldsDatabases (capacity : Nat) (found : Found) (databases : Databases) (file : Bytes) :
    Prop :=
  ∃ (state : ServerState) (saved : List SavedDatabase),
    state.passwords = found.passwords ∧ state.databases = databases.map savedDatabase ∧
    file = fileBytes ⟨found.serverAge, found.passwords, saved, found.file⟩ ∧
    (∀ database ∈ saved, database.count = database.records.length) ∧
    Restores capacity state file

/-- In the course of these turns the thread is never lost and ends where it is left alone, and its
file holds the databases of one instant of the save. -/
def TakesSnapshot (mpf : Mpf) (capacity : Nat) (found : Found) (databases : Databases)
    (turns : List Turn) : Prop :=
  ∀ first, first <+: turns → ∀ reached,
    run (step mpf found.file) (begin capacity found databases) first = some reached →
      reached.reader ≠ .lost ∧
      (∃ steps, ((save found.file reached.store)^[steps] reached.reader).ended = true) ∧
      ∀ file, reached.reader = .done file → ∃ before instant, before <+: first ∧
        run (step mpf found.file) (begin capacity found databases) before = some instant ∧
        instant.reader.ended = false ∧ HoldsDatabases capacity found instant.store file

/-! ## When it does -/

/-- What lies in a slot; behind the last one nothing does. -/
def slotAt (database : Database) (slot : Nat) : Option (Bytes × TellyDB.Database.KeyValue) :=
  if slot < database.data.capacity then (database.data.table.elements slot).map savedEntry
  else none

def header (database : Database) : Bytes × Nat := (database.name, database.data.count)

/-- The list in the slot can be walked. Where the thread leaves a database without a dump, there
was nothing in it at the instant. -/
def SizesRight (former now : Database) (slot dataSize : Nat) : Prop :=
  if slot < now.data.capacity then
    ∀ element, now.data.table.elements slot = some element → walkable element.2.value
  else dataSize = 0 → ∀ later, slotAt former later = none

/-- The slot holds what it held at the instant, and its record fits into the buffer. Where the
thread ends the dump, nothing was left at the instant. -/
def DumpsRight (former now : Database) (slot dataSize : Nat) : Prop :=
  if slot < now.data.capacity then
    slotAt now slot = slotAt former slot ∧
      ∀ element, now.data.table.elements slot = some element →
        walkable element.2.value ∧ filledLength (savedEntry element).2 ≤ dataSize
  else ∀ later, slot ≤ later → slotAt former later = none

/-- What the thread is about to read is what was there at the instant. -/
def Agrees (instant now : Databases) : Thread → Prop
  | .saving index .node _ => now[index]?.map header = instant[index]?.map header
  | .saving index (.sizing slot dataSize) _ => ∀ old ∈ instant[index]?, ∀ new ∈ now[index]?,
      SizesRight old new slot dataSize
  | .saving index (.dumping slot dataSize) _ => ∀ old ∈ instant[index]?, ∀ new ∈ now[index]?,
      DumpsRight old new slot dataSize
  | .done _ | .lost => True

/-- A file of one block can hold the databases. -/
structure Savable (capacity : Nat) (found : Found) (databases : Databases) (state : ServerState) :
    Prop where
  age : state.serverAge = found.serverAge
  passwords : state.passwords = found.passwords
  databases : state.databases = databases.map savedDatabase
  few : state.passwords.length ≤ 1
  within : stateLength state < capacity
  stored : ∀ database ∈ state.databases, DatabaseStored database

end TellyDB.Commands.Data.BackgroundSave
