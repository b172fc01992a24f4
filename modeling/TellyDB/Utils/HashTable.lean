import TellyDB.Lib.FiniteMap
import TellyDB.Lib.LinearProbing
import TellyDB.Lib.RingWalk

/-!
Owns the hash table of `utils/hashtable.c`: open addressing with linear
probing, growth at three quarters of the capacity and deletion by backward
shift. A slot whose key is NULL is `none`. Every loop of the source counts its
turns against `fuel`, and `none` means the loop did not end within it.

The load factor 0.75 and the multiplier 2.00 are doubles in the source; they
are exact on every capacity whose array fits in memory, so the comparison is
written over integers.
-/

namespace TellyDB.Utils

open Lib Circular RingWalk LinearProbing SlotArray

/-- The `hash` and `key_compare` a table is created with, and what the table
relies on: `key_compare` is an equality of keys, false on a NULL key, and
equal keys have equal hashes. -/
structure KeyFunctions (K : Type) where
  hash : K → Nat
  keyCompare : Option K → K → Bool
  compare_null : ∀ key, keyCompare none key = false
  compare_self : ∀ key, keyCompare (some key) key = true
  compare_symm : ∀ {left right}, keyCompare (some left) right = true →
    keyCompare (some right) left = true
  compare_trans : ∀ {left middle right}, keyCompare (some left) middle = true →
    keyCompare (some middle) right = true → keyCompare (some left) right = true
  hash_eq : ∀ {left right}, keyCompare (some left) right = true → hash left = hash right

/-- `HashTableElement`. -/
abbrev HashTableElement (K V : Type) := K × V

/-- `HashTable`. Only the slots below `capacity` belong to the array. -/
structure HashTable (K V : Type) where
  capacity : Nat
  count : Nat
  elements : Nat → Option (HashTableElement K V)
  keys : KeyFunctions K

namespace HashTable

variable {K V : Type}

/-- The slot a key is hashed to. -/
def home (keys : KeyFunctions K) (capacity : Nat) (element : HashTableElement K V) : Nat :=
  keys.hash element.1 % capacity

/-- `key_compare(elements[index].key, key)`, with `elements[index].key` NULL in
a free slot. -/
def compareAt (keys : KeyFunctions K) (elements : Nat → Option (HashTableElement K V)) (key : K)
    (index : Nat) : Bool :=
  keys.keyCompare ((elements index).map Prod.fst) key

/-- `elements[index].key == NULL`. -/
def freeAt (elements : Nat → Option (HashTableElement K V)) (index : Nat) : Bool :=
  (elements index).isNone

/-- `create_hashtable`. -/
def createHashtable (capacity : Nat) (keys : KeyFunctions K) : HashTable K V where
  capacity := capacity
  count := 0
  elements := fun _ => none
  keys := keys

/-- The rehash loop of `grow_hashtable`, from slot `0` of the old array on. -/
def rehash (fuel : Nat) (keys : KeyFunctions K) (old : Nat → Option (HashTableElement K V))
    (newCapacity : Nat) (fresh : Nat → Option (HashTableElement K V)) :
    Nat → Option (Nat → Option (HashTableElement K V))
  | 0 => some fresh
  | done + 1 => do
      let elements ← rehash fuel keys old newCapacity fresh done
      match old done with
      | none => some elements
      | some element =>
          let index ← walk newCapacity (freeAt elements) fuel (keys.hash element.1 % newCapacity)
          some (Function.update elements index (some element))

/-- `grow_hashtable`, with the contents of the array the allocator delivers. -/
def growHashtable (fuel : Nat) (fresh : Nat → Option (HashTableElement K V))
    (table : HashTable K V) : Option (HashTable K V) :=
  if 4 * table.count < 3 * table.capacity then some table
  else do
    let newCapacity := 2 * table.capacity
    let elements ← rehash fuel table.keys table.elements newCapacity fresh table.capacity
    some { table with capacity := newCapacity, elements := elements }

/-- `insert_into_hashtable`, returning the element the result points to. -/
def insertIntoHashtable (fuel : Nat) (fresh : Nat → Option (HashTableElement K V))
    (table : HashTable K V) (key : K) (value : V) :
    Option (HashTable K V × Option (HashTableElement K V)) := do
  let table ← growHashtable fuel fresh table
  let start := table.keys.hash key % table.capacity
  let index ← walk table.capacity
    (fun index => freeAt table.elements index ||
      compareAt table.keys table.elements key index) fuel start
  match table.elements index with
  | some element => some (table, some element)
  | none =>
      some ({ table with
        count := table.count + 1
        elements := Function.update table.elements index (some (key, value)) },
        some (key, value))

/-- The probing loop of `delete_from_hashtable`, `exist_in_hashtable` and
`get_from_hashtable`: it stops at an equal key or a free slot, or back at the
start. The slot found is returned when its key is the one searched. -/
def probe (fuel : Nat) (table : HashTable K V) (key : K) : Option (Option Nat) := do
  let start := table.keys.hash key % table.capacity
  let stopped ← walkOnce table.capacity
    (fun index => compareAt table.keys table.elements key index ||
      freeAt table.elements index) start fuel start
  match stopped with
  | none => some none
  | some index =>
      if compareAt table.keys table.elements key index then some (some index) else some none

/-- The test of the backward shift, as the source writes it: does `ideal` lie
in `(deletion, current]`? -/
def staysAt (deletion current ideal : Nat) : Bool :=
  if deletion ≤ current then decide (deletion < ideal) && decide (ideal ≤ current)
  else decide (deletion < ideal) || decide (ideal ≤ current)

/-- The backward shift of `delete_from_hashtable` once `elements[deletion]` is
NULL. One turn is one turn of the inner loop, followed by the move when the
inner loop breaks. -/
def shiftBack (keys : KeyFunctions K) (capacity : Nat) :
    Nat → (Nat → Option (HashTableElement K V)) → Nat → Nat →
      Option (Nat → Option (HashTableElement K V))
  | 0, _, _, _ => none
  | fuel + 1, elements, deletion, current =>
      let current := (current + 1) % capacity
      match elements current with
      | none => some elements
      | some element =>
          if staysAt deletion current (keys.hash element.1 % capacity) then
            shiftBack keys capacity fuel elements deletion current
          else
            let moved := Function.update elements deletion (some element)
            shiftBack keys capacity fuel (Function.update moved current none) current current

/-- `delete_from_hashtable`. -/
def deleteFromHashtable (fuel : Nat) (table : HashTable K V) (key : K) :
    Option (HashTable K V × Bool) := do
  match ← probe fuel table key with
  | none => some (table, false)
  | some deletion =>
      let elements ← shiftBack table.keys table.capacity fuel
        (Function.update table.elements deletion none) deletion deletion
      some ({ table with count := table.count - 1, elements := elements }, true)

/-- `exist_in_hashtable`. -/
def existInHashtable (fuel : Nat) (table : HashTable K V) (key : K) : Option Bool := do
  match ← probe fuel table key with
  | none => some false
  | some _ => some true

/-- `get_from_hashtable`, returning the element the result points to. -/
def getFromHashtable (fuel : Nat) (table : HashTable K V) (key : K) :
    Option (Option (HashTableElement K V)) := do
  match ← probe fuel table key with
  | none => some none
  | some index => some (table.elements index)

/-- `foreach_hashtable`: call `procedure` on the occupied slots in slot order. -/
def foreachHashtable {σ : Type} (table : HashTable K V)
    (procedure : HashTableElement K V → σ → σ) (external : σ) : σ :=
  (List.range table.capacity).foldl (fun external index =>
    match table.elements index with
    | none => external
    | some element => procedure element external) external

/-- `clear_hashtable`, with the elements handed to `destroy_element` in order.
With a destructor `foreach_hashtable` empties the occupied slots after
destroying them; without one every slot is emptied. -/
def clearHashtable (table : HashTable K V) (destroyElement : Bool) :
    HashTable K V × List (HashTableElement K V) :=
  let cleared := { table with
    count := 0
    elements := fun index => if index < table.capacity then none else table.elements index }
  if destroyElement then
    (cleared, foreachHashtable table (fun element destroyed => destroyed ++ [element]) [])
  else (cleared, [])

end HashTable

end TellyDB.Utils
