import TellyDB.Lib.LinkedSegment

/-!
Owns the doubly linked list of `utils/linkedlist.c` over the memory that holds
its nodes. A pointer is `none` when it is NULL, and an operation is `none` when
it touches a node that is not live.

The memory holds the nodes of one list only, so a walk of more than `size` nodes
has come back to one of them and does not end.
-/

namespace TellyDB.Utils

open Lib.LinkedSegment

/-- `LinkedListNode`. -/
abbrev LinkedListNode (D : Type) := Cell D

/-- `LinkedList`. -/
structure LinkedList where
  beginNode : Option Nat
  endNode : Option Nat
  size : Nat

/-- `LLSearchDirection`. -/
inductive LLSearchDirection where
  | back
  | front

namespace LinkedList

variable {D : Type}

/-- `ll_create_node` where the allocator would hand out `address`; an address
in use stands for an allocation that fails. -/
def llCreateNode (memory : Memory D) (address : Nat) (data : D) : Option (Memory D) :=
  match memory address with
  | some _ => none
  | none => some (Function.update memory address (some ⟨data, none, none⟩))

/-- `pointer->next = target`. -/
def setNext (memory : Memory D) (pointer target : Option Nat) : Option (Memory D) := do
  let address ← pointer
  let node ← memory address
  some (Function.update memory address (some { node with next := target }))

/-- `pointer->prev = target`. -/
def setPrev (memory : Memory D) (pointer target : Option Nat) : Option (Memory D) := do
  let address ← pointer
  let node ← memory address
  some (Function.update memory address (some { node with prev := target }))

/-- `*pointer`. -/
def readNode (memory : Memory D) (pointer : Option Nat) : Option (LinkedListNode D) := do
  let address ← pointer
  memory address

/-- `free(pointer)`. -/
def freeNode (memory : Memory D) (pointer : Option Nat) : Option (Memory D) := do
  let address ← pointer
  let _ ← memory address
  some (Function.update memory address none)

/-- `ll_create`. -/
def llCreate : LinkedList := ⟨none, none, 0⟩

/-- `ll_insert_back`, returning the new node or NULL. -/
def llInsertBack (memory : Memory D) (list : LinkedList) (address : Nat) (data : D) :
    Option (Memory D × LinkedList × Option Nat) :=
  match llCreateNode memory address data with
  | none => some (memory, list, none)
  | some memory =>
      if list.size = 0 then
        some (memory, ⟨some address, some address, 1⟩, some address)
      else do
        let oldNode := list.endNode
        let memory ← setNext memory list.endNode (some address)
        let memory ← setPrev memory (some address) oldNode
        some (memory, { list with endNode := some address, size := list.size + 1 }, some address)

/-- `ll_insert_front`, returning the new node or NULL. -/
def llInsertFront (memory : Memory D) (list : LinkedList) (address : Nat) (data : D) :
    Option (Memory D × LinkedList × Option Nat) :=
  match llCreateNode memory address data with
  | none => some (memory, list, none)
  | some memory =>
      if list.size = 0 then
        some (memory, ⟨some address, some address, 1⟩, some address)
      else do
        let oldNode := list.beginNode
        let memory ← setPrev memory list.beginNode (some address)
        let memory ← setNext memory (some address) oldNode
        some (memory, { list with beginNode := some address, size := list.size + 1 }, some address)

/-- `ll_remove_front`. -/
def llRemoveFront (memory : Memory D) (list : LinkedList) :
    Option (Memory D × LinkedList × Bool) :=
  if list.size = 0 then some (memory, list, false)
  else do
    let front ← readNode memory list.beginNode
    let memory ← freeNode memory list.beginNode
    let endNode := if list.size = 1 then none else list.endNode
    some (memory, ⟨front.next, endNode, list.size - 1⟩, true)

/-- `ll_remove_back`. -/
def llRemoveBack (memory : Memory D) (list : LinkedList) :
    Option (Memory D × LinkedList × Bool) :=
  if list.size = 0 then some (memory, list, false)
  else do
    let back ← readNode memory list.endNode
    let memory ← freeNode memory list.endNode
    let beginNode := if list.size = 1 then none else list.beginNode
    some (memory, ⟨beginNode, back.prev, list.size - 1⟩, true)

/-- The loop of `ll_search_node`, which goes on at `link`. -/
def llSearchFrom (memory : Memory D) (link : LinkedListNode D → Option Nat) (cmp : D → Bool) :
    Nat → Option Nat → Option (Option Nat)
  | 0, _ => none
  | _ + 1, none => some none
  | turns + 1, some address => do
      let node ← memory address
      if cmp node.data then some (some address)
      else llSearchFrom memory link cmp turns (link node)

/-- `ll_search_node`, returning the node or NULL. The search from the back follows `next`,
the one from the front follows `prev`. -/
def llSearchNode (memory : Memory D) (list : LinkedList) (cmp : D → Bool) :
    LLSearchDirection → Option (Option Nat)
  | .back => llSearchFrom memory Cell.next cmp (list.size + 1) list.endNode
  | .front => llSearchFrom memory Cell.prev cmp (list.size + 1) list.beginNode

/-- `ll_get_from_index`. -/
def llGetFromIndex (memory : Memory D) (list : LinkedList) (index : Nat) :
    LLSearchDirection → Option (Option Nat)
  | .front => walk memory Cell.next index list.beginNode
  | .back => walk memory Cell.prev index list.endNode

/-- The loop of `ll_clear`, with the addresses it freed in order. -/
def llClearFrom : Nat → Memory D → Option Nat → Option (Memory D × List Nat)
  | 0, _, _ => none
  | _ + 1, memory, none => some (memory, [])
  | turns + 1, memory, some address => do
      let front ← memory address
      let memory ← freeNode memory (some address)
      let (memory, freed) ← llClearFrom turns memory front.next
      some (memory, address :: freed)

/-- `ll_clear`; `ll_free` then frees the list itself. -/
def llClear (memory : Memory D) (list : LinkedList) : Option (Memory D × List Nat) :=
  llClearFrom (list.size + 1) memory list.beginNode

/-- The loop over `list->begin` and `next` that computes the size of a list
value and writes it to the database file. -/
def collectFrom (memory : Memory D) : Nat → Option Nat → Option (List D)
  | 0, _ => none
  | _ + 1, none => some []
  | turns + 1, some address => do
      let node ← memory address
      let rest ← collectFrom memory turns node.next
      some (node.data :: rest)

/-- The data a save reads from a list value. -/
def collectList (memory : Memory D) (list : LinkedList) : Option (List D) :=
  collectFrom memory (list.size + 1) list.beginNode

end LinkedList

end TellyDB.Utils
