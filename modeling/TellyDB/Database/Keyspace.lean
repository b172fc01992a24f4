import TellyDB.Database.Tables

/-!
Owns the keys of a database as the commands use them: `database/get.c`,
`database/set.c`, `database/delete.c` and `database/kv.c`.

A list is its elements, and whether the links before its first and after its last
node are NULL or still lead to a node that a pop has freed; what follows such a
link is undefined. A function is `none` where the source is undefined.
-/

namespace TellyDB.Database.Keyspace

open Resp Utils

/-- `LinkedList` of values. -/
structure ListValue where
  elements : List Scalar
  /-- `begin->prev` is the node that the last LPOP freed. -/
  frontFreed : Bool
  /-- `end->next` is the node that the last RPOP freed. -/
  backFreed : Bool
deriving DecidableEq

namespace ListValue

/-- `ll_create`. -/
def llCreate : ListValue := ⟨[], false, false⟩

def size (list : ListValue) : Nat := list.elements.length

/-- `ll_insert_front`. The first node of a list has no neighbours. -/
def llInsertFront (list : ListValue) (value : Scalar) : ListValue :=
  ⟨value :: list.elements, false, !list.elements.isEmpty && list.backFreed⟩

/-- `ll_insert_back`. -/
def llInsertBack (list : ListValue) (value : Scalar) : ListValue :=
  ⟨list.elements ++ [value], !list.elements.isEmpty && list.frontFreed, false⟩

/-- `ll_remove_front`. -/
def llRemoveFront (list : ListValue) : Option ListValue :=
  match list.elements with
  | [] => none
  | _ :: rest => some ⟨rest, true, list.backFreed⟩

/-- `ll_remove_back`. -/
def llRemoveBack (list : ListValue) : Option ListValue :=
  match list.elements with
  | [] => none
  | _ => some ⟨list.elements.dropLast, list.frontFreed, true⟩

/-- `ll_get_from_index` from `begin`, and the data of the node it returns. -/
def fromFront (list : ListValue) (index : Nat) : Option (Option Scalar) :=
  match list.elements[index]? with
  | some element => some (some element)
  | none => if list.backFreed then none else some none

/-- `ll_get_from_index` from `end`, and the data of the node it returns. -/
def fromBack (list : ListValue) (index : Nat) : Option (Option Scalar) :=
  match list.elements.reverse[index]? with
  | some element => some (some element)
  | none => if list.frontFreed then none else some none

/-- `ll_free`, which follows `next` to the end. -/
def llFree (list : ListValue) : Option Unit := if list.backFreed then none else some ()

end ListValue

/-- `Value`. -/
inductive Value where
  | scalar (value : Scalar)
  | hashtable (table : Table Scalar)
  | list (list : ListValue)

def Value.type : Value → TellyType
  | .scalar value => value.type
  | .hashtable _ => .hashtable
  | .list _ => .list

/-- `KeyValue` without its key, which is the one it lies under. `expiry` is `none` when it is not
enabled. -/
structure KeyValue where
  value : Value
  expiry : Option Nat

abbrev Data : Type := Table KeyValue

/-- `free_value`. -/
def freeValue : Value → Option Unit
  | .list list => list.llFree
  | _ => some ()

/-- `get_data`. -/
def getData (data : Data) (key : Bytes) : Option KeyValue := data.get key

/-- `set_data`, where `kv` is what `get_data` found under the key. The value it replaces is
freed. -/
def setData (data : Data) (kv : Option KeyValue) (key : Bytes) (value : Value)
    (expireAt : Option Nat) : Option Data :=
  match kv with
  | some kv => do
      freeValue kv.value
      some (data.assign key ⟨value, expireAt⟩)
  | none => some (data.insert key ⟨value, expireAt⟩)

/-- An assignment to `kv->value` of the key. -/
def changeValue (data : Data) (key : Bytes) (kv : KeyValue) (value : Value) : Data :=
  data.assign key { kv with value }

/-- `delete_data`. -/
def deleteData (data : Data) (key : Bytes) : Option (Data × Bool) :=
  match getData data key with
  | none => some (data, false)
  | some kv => do
      freeValue kv.value
      some ((data.delete key).1, true)

/-- `clear_database`. -/
def clearDatabase (data : Data) : Option Data := do
  data.entries.forM fun entry => freeValue entry.2.value
  some data.clear

/-- `ExpiryState`. -/
inductive ExpiryState where
  | notExpired
  | expired
  | syscallError
deriving DecidableEq

/-- The key has an expiry that is not later than `now`. -/
def KeyValue.expiredAt (kv : KeyValue) (now : Nat) : Bool :=
  match kv.expiry with
  | none => false
  | some deadline => deadline ≤ now

/-- `check_kv_expiry`; the clock is `none` when it cannot be read. The key is found, so its
deletion succeeds. -/
def checkKvExpiry (clock : Option Nat) (data : Data) (key : Bytes) (kv : KeyValue) :
    Data × ExpiryState :=
  match kv.expiry, clock with
  | none, _ => (data, .notExpired)
  | some _, none => (data, .syscallError)
  | some _, some now =>
      if kv.expiredAt now then ((data.delete key).1, .expired) else (data, .notExpired)

end TellyDB.Database.Keyspace
