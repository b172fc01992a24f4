import TellyDB.Utils.LinkedList
import Mathlib.Algebra.Order.Ring.Nat

/-!
Owns the list commands of `commands/list/` on one key, from a client that is
connected: LPUSH, RPUSH, LPOP, RPOP, LINDEX and LRANGE. A command is `none` when
it touches a node that is not live or fails an assertion.
-/

namespace TellyDB.Commands

open Lib.LinkedSegment Utils Utils.LinkedList

variable {D : Type}

/-- The key: `none` while it is absent, else its list, with the memory of the nodes. -/
structure ListKey (D : Type) where
  memory : Memory D
  list : Option LinkedList

/-- A list index as the client wrote it. -/
structure IndexLiteral where
  negative : Bool
  magnitude : Nat

namespace ListKey

/-- The loop of `LPUSH` and `RPUSH` over the arguments, with the number of
values it pushed. It returns early when an insertion runs out of memory. -/
def pushAll (insert : Memory D → LinkedList → Nat → D → Option (Memory D × LinkedList × Option Nat)) :
    List (Nat × D) → Memory D → LinkedList → Option (Memory D × LinkedList × Nat)
  | [], memory, list => some (memory, list, 0)
  | (address, data) :: rest, memory, list => do
      let (memory, list, node) ← insert memory list address data
      match node with
      | none => some (memory, list, 0)
      | some _ => do
          let (memory, list, count) ← pushAll insert rest memory list
          some (memory, list, count + 1)

/-- `LPUSH` and `RPUSH`; fewer than two arguments are refused. -/
def push (insert : Memory D → LinkedList → Nat → D → Option (Memory D × LinkedList × Option Nat))
    (key : ListKey D) (values : List (Nat × D)) : Option (ListKey D × Nat) :=
  match values with
  | [] => some (key, 0)
  | _ => do
      let (memory, list, count) ← pushAll insert values key.memory (key.list.getD llCreate)
      some (⟨memory, some list⟩, count)

/-- `LPUSH`. -/
def lpush (key : ListKey D) (values : List (Nat × D)) : Option (ListKey D × Nat) :=
  push llInsertFront key values

/-- `RPUSH`. -/
def rpush (key : ListKey D) (values : List (Nat × D)) : Option (ListKey D × Nat) :=
  push llInsertBack key values

/-- `delete_data` on the key: `ll_free` frees its nodes. -/
def deleteData (key : ListKey D) : Option (ListKey D) :=
  match key.list with
  | none => some key
  | some list => do
      let (memory, _) ← llClear key.memory list
      some ⟨memory, none⟩

/-- `LPOP` and `RPOP`: reply with the data at `pointer`, then delete the key
with its last node or remove one node. -/
def pop (pointer : LinkedList → Option Nat)
    (remove : Memory D → LinkedList → Option (Memory D × LinkedList × Bool)) (key : ListKey D) :
    Option (ListKey D × Option D) :=
  match key.list with
  | none => some (key, none)
  | some list => do
      let node ← readNode key.memory (pointer list)
      if list.size = 1 then do
        let key ← deleteData key
        some (key, some node.data)
      else do
        let (memory, list, removed) ← remove key.memory list
        if removed then some (⟨memory, some list⟩, some node.data) else none

/-- `LPOP`. -/
def lpop (key : ListKey D) : Option (ListKey D × Option D) := pop beginNode llRemoveFront key

/-- `RPOP`. -/
def rpop (key : ListKey D) : Option (ListKey D × Option D) := pop endNode llRemoveBack key

/-- The node `LINDEX` looks up: a negative index counts from `-1` at the back,
and `-0` wraps to the largest index. -/
def indexedNode (memory : Memory D) (list : LinkedList) (index : IndexLiteral) :
    Option (Option Nat) :=
  if index.negative then
    llGetFromIndex memory list ((index.magnitude + 2 ^ 64 - 1) % 2 ^ 64) .back
  else llGetFromIndex memory list index.magnitude .front

/-- `LINDEX`, replying null past the ends. -/
def lindex (key : ListKey D) (index : IndexLiteral) : Option (Option D) :=
  match key.list with
  | none => some none
  | some list => do
      match ← indexedNode key.memory list index with
      | none => some none
      | some address => do
          let node ← key.memory address
          some (some node.data)

/-- `normalize_index`. -/
def normalizeIndex (listSize : Nat) (index : IndexLiteral) : Nat :=
  if index.negative then
    if index.magnitude ≥ listSize then listSize else listSize - index.magnitude
  else if index.magnitude ≥ listSize then listSize - 1 else index.magnitude

/-- `determine_dir`. -/
def determineDir (start stop size : Nat) : LLSearchDirection :=
  if start ≤ size - stop then .front else .back

/-- One loop of `collect_values`: the data of `count` nodes along one link. -/
def collectAlong (memory : Memory D) (link : LinkedListNode D → Option Nat) :
    Nat → Option Nat → Option (List D)
  | 0, _ => some []
  | count + 1, pointer => do
      let node ← readNode memory pointer
      let rest ← collectAlong memory link count (link node)
      some (node.data :: rest)

/-- `collect_values`; towards the back the array is filled from its end. -/
def collectValues (memory : Memory D) (list : LinkedList) (count start stop : Nat) :
    Option (List D) :=
  match determineDir start stop list.size with
  | .front => do
      let origin ← llGetFromIndex memory list start .front
      collectAlong memory Cell.next count origin
  | .back => do
      let origin ← llGetFromIndex memory list (list.size - stop - 1) .front
      let values ← collectAlong memory Cell.prev count origin
      some values.reverse

/-- `LRANGE`. -/
def lrange (key : ListKey D) (startIndex stopIndex : IndexLiteral) : Option (List D) :=
  match key.list with
  | none => some []
  | some list =>
      if list.size = 0 then some []
      else
        let start := normalizeIndex list.size startIndex
        let stop := normalizeIndex list.size stopIndex
        if start ≥ list.size ∨ stop ≤ start ∨ stop = list.size then some []
        else collectValues key.memory list (stop - start + 1) start stop

/-- What a save reads of the key. -/
def save (key : ListKey D) : Option (List D) :=
  match key.list with
  | none => some []
  | some list => collectList key.memory list

end ListKey

end TellyDB.Commands
