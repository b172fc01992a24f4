import TellyDB.Utils.LinkedList.Linked
import TellyDB.Lib.Transition
import TellyDB.Resp.Replies

/-!
Owns `database/databases.c` and SELECT: the list of databases, how one is found
by its name, and when a name leads to its database along a run of SELECTs.

A database is named by the address of its list node, which no command frees.
-/

namespace TellyDB.Databases

open Lib.LinkedSegment Lib.Transition Resp Utils Utils.LinkedList

/-- `Database`, without its keys. -/
structure Database where
  name : Bytes
  id : Nat
deriving DecidableEq

/-- `server->databases`, which is NULL before the first database, the database of every client
slot, and the databases that SELECT gave so far by the name it was asked for. -/
structure State where
  memory : Memory Database
  databases : Option LinkedList
  selected : Nat → Option Nat
  selections : List (Bytes × Nat)

/-- A SELECT whose client is `none` when it has left. `address` is where the allocator would
put a new database; an address in use stands for an allocation that fails. -/
structure Select where
  client : Option Nat
  args : List Bytes
  address : Nat

section Functions

variable (hash : Bytes → Nat)

/-- `cmp`, the comparison of `get_database`. -/
def sameDatabase (target : Nat) (name : Bytes) (database : Database) : Bool :=
  database.id == target && database.name == name

/-- `get_database`, returning a pointer that may be NULL. -/
def getDatabase (state : State) (name : Bytes) : Option (Option Nat) := do
  let databases ← state.databases
  llSearchNode state.memory databases (sameDatabase (hash name) name) .back

/-- `create_database`, returning a pointer that may be NULL. -/
def createDatabase (state : State) (name : Bytes) (address : Nat) :
    Option (State × Option Nat) := do
  let databases := state.databases.getD llCreate
  let (memory, databases, node) ← llInsertBack state.memory databases address ⟨name, hash name⟩
  some ({ state with memory, databases := some databases }, node)

/-- `SELECT`. -/
def runSelect (state : State) (command : Select) : Option (State × Bytes) := do
  let some client := command.client | some (state, [])
  let [name] := command.args | some (state, wrongArgumentError "SELECT")
  let found ← getDatabase hash state name
  let (state, database) ← match found with
    | some address => some (state, some address)
    | none => createDatabase hash state name command.address
  let some address := database
    | some (state, respErrorMessage "Memory error, cannot create new database")
  some ({ state with
    selected := Function.update state.selected client (some address)
    selections := (name, address) :: state.selections }, respOk)

/-- One SELECT. -/
def step (state : State) (command : Select) : Option State :=
  (runSelect hash state command).map Prod.fst

/-- Before the database file is read. -/
def unloaded : State := ⟨fun _ => none, none, fun _ => none, []⟩

/-- What `open_database_fd` does to the databases: it creates them one by one, and gives up when
one cannot be created. -/
def loadFrom (state : State) : List (Bytes × Nat) → Option State
  | [] => some state
  | (name, address) :: rest => do
      let (state, some _) ← createDatabase hash state name address | none
      loadFrom state rest

/-- The server that has loaded databases of these names. -/
def load (databases : List (Bytes × Nat)) : Option State := loadFrom hash unloaded databases

/-- A database of this name was loaded or created at this address. -/
def State.Holds (state : State) (name : Bytes) (address : Nat) : Prop :=
  ∃ cell, state.memory address = some cell ∧ cell.data.name = name

/-- Databases are unique by name. -/
structure Unique (state : State) : Prop where
  /-- `get_database` finds the database of a name exactly when there is one. -/
  found : ∀ name address, getDatabase hash state name = some (some address) ↔
    state.Holds name address
  /-- A name never has two databases. -/
  single : ∀ name left right, state.Holds name left → state.Holds name right → left = right
  /-- Two SELECTs of the same name selected the same database. -/
  agree : ∀ name left right, (name, left) ∈ state.selections → (name, right) ∈ state.selections →
    left = right

/-- The database at the end of the list has this name. -/
def State.endsWith (state : State) (name : Bytes) : Bool :=
  match state.databases with
  | none => false
  | some databases =>
      match readNode state.memory databases.endNode with
      | none => false
      | some node => node.data.name == name

/-- A SELECT creates no database: nobody waits for it, its arguments are wrong, the database at
the end of the list is the one it names, or the allocation fails. -/
def CreatesNone (state : State) (command : Select) : Prop :=
  match command.client, command.args with
  | some _, [name] =>
      state.endsWith name = true ∨ (state.memory command.address).isSome = true
  | _, _ => True

instance (state : State) (command : Select) : Decidable (CreatesNone state command) := by
  rcases command with ⟨client, args, address⟩
  rcases client with _ | client <;> rcases args with _ | ⟨name, _ | ⟨second, rest⟩⟩ <;>
    unfold CreatesNone <;> dsimp only <;> infer_instance

end Functions

end TellyDB.Databases
