import TellyDB.Lib.LinearProbing
import TellyDB.Lib.RingWalk
import TellyDB.Lib.Transition

/-!
Owns the client table of `server/client.c`: which slot holds which id, how slots
are taken and freed, and how a client is looked up by its id. Ids are issued as
`uint32_t` and kept as `int`; `-1` marks a free slot.

A loop counts its turns. A lookup that has not ended after one turn for every
slot is back where it has been and never ends; `none` stands for that, and for
an access outside of the table.
-/

namespace TellyDB.Server

open Lib Circular RingWalk LinearProbing SlotArray Transition

structure ClientTable where
  maxClients : Nat
  clients : Nat → Int
  clientCount : Nat
  lastConnectionClientId : BitVec 32

namespace ClientTable

/-- `initialize_clients`. -/
def initializeClients (maxClients : Nat) : ClientTable where
  maxClients := maxClients
  clients _ := -1
  clientCount := 0
  lastConnectionClientId := 1

/-- The loop of `get_client`. -/
def getClientFrom (table : ClientTable) (id : Int) (start : Nat) : Nat → Nat → Option (Option Nat)
  | 0, _ => none
  | turns + 1, position =>
      if table.clients position = -1 then some none
      else if table.clients position = id then some (some position)
      else if position + 1 = table.maxClients then getClientFrom table id start turns 0
      else if position + 1 = start then some none
      else getClientFrom table id start turns (position + 1)

/-- `get_client`, with the slot its result points to. -/
def getClient (table : ClientTable) (id : Int) : Option (Option Nat) :=
  if id = -1 then some none
  else
    let start := id.tmod table.maxClients
    if start < 0 then none
    else getClientFrom table id start.toNat table.maxClients start.toNat

/-- `get_available_client_slot`, which does not end when the table is full. -/
def getAvailableClientSlot (table : ClientTable) (id : BitVec 32) : Option Nat :=
  walk table.maxClients (fun position => decide (table.clients position = -1)) table.maxClients
    (id.toNat % table.maxClients)

/-- `add_client`. When an allocation fails, the slot stays taken. -/
def addClient (table : ClientTable) (allocated : Bool) : Option ClientTable := do
  let id := table.lastConnectionClientId
  let slot ← getAvailableClientSlot table id
  let taken := { table with clients := Function.update table.clients slot id.toInt }
  some (if allocated then
    { taken with
      clientCount := table.clientCount + 1
      lastConnectionClientId := id + 1 }
    else taken)

/-- A slot without its client. -/
def freeSlot (table : ClientTable) (slot : Nat) : ClientTable :=
  { table with
    clients := Function.update table.clients slot (-1)
    clientCount := table.clientCount - 1 }

/-- `remove_client`, and what it returns. -/
def removeClient (table : ClientTable) (id : Int) : Option (ClientTable × Bool) := do
  match ← getClient table id with
  | none => some (table, false)
  | some slot => some (freeSlot table slot, true)

/-! ## Runs -/

inductive Operation where
  | addClient (allocated : Bool)
  | removeClient (id : Int)

def step (table : ClientTable) : Operation → Option ClientTable
  | .addClient allocated => addClient table allocated
  | .removeClient id => (removeClient table id).map Prod.fst

/-- What a slot holds. -/
def slots (table : ClientTable) (position : Nat) : Option Int :=
  if table.clients position = -1 then none else some (table.clients position)

/-- The slot at which the search for an id starts. -/
def home (maxClients : Nat) (id : Int) : Nat := id.toNat % maxClients

/-- A lookup finds a client exactly when it is connected, a connected client can be removed,
and the count is that of the slots which are taken. -/
structure Sound (table : ClientTable) : Prop where
  found : ∀ id slot, getClient table id = some (some slot) ↔
    id ≠ -1 ∧ slot < table.maxClients ∧ table.clients slot = id
  removed : ∀ slot < table.maxClients, table.clients slot ≠ -1 →
    ∃ next, removeClient table (table.clients slot) = some (next, true)
  counted : table.clientCount = (entries table.slots table.maxClients).length

/-- The search for the client of one slot passes another one. -/
def Passes (table : ClientTable) (client slot : Nat) : Prop :=
  ∃ steps < offset table.maxClients (home table.maxClients (table.clients client)) client,
    place table.maxClients (home table.maxClients (table.clients client)) steps = slot

/-- The search for no other client passes the slot. -/
def Unpassed (table : ClientTable) (slot : Nat) : Prop :=
  ∀ client < table.maxClients, table.clients client ≠ -1 → client ≠ slot →
    ¬ Passes table client slot

/-- A new client gets an id that is an `int`, and its memory; the slot of a client that is
removed is on the way to no other client. -/
def Keeps (table : ClientTable) : Operation → Prop
  | .addClient allocated => allocated = true ∧ table.lastConnectionClientId.msb = false
  | .removeClient id => ∀ slot < table.maxClients, table.clients slot = id → Unpassed table slot

instance (table : ClientTable) (client slot : Nat) : Decidable (Passes table client slot) :=
  inferInstanceAs (Decidable (∃ _ < _, _))

instance (table : ClientTable) (slot : Nat) : Decidable (Unpassed table slot) :=
  inferInstanceAs (Decidable (∀ client < table.maxClients, table.clients client ≠ -1 →
    client ≠ slot → ¬ Passes table client slot))

instance (table : ClientTable) : (operation : Operation) → Decidable (Keeps table operation)
  | .addClient _ => inferInstanceAs (Decidable (_ ∧ _))
  | .removeClient id => inferInstanceAs (Decidable (∀ slot < table.maxClients,
      table.clients slot = id → Unpassed table slot))

end ClientTable

end TellyDB.Server
