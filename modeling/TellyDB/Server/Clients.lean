import TellyDB.Lib.RingWalk
import TellyDB.Server.State

/-!
Owns the client table of `server/client.c`, the connections it stands for, and
the password list of `server/auth.c`. A function is `none` where the source
does not return: a loop without end, a failed assertion, or an access outside
an array.
-/

namespace TellyDB.Server

open Resp Lib

variable {σ D K : Type} {threads : Nat}

/-! ## The client table -/

/-- The loop of `get_client`; only a return to a `start` other than 0 ends it
without an answer. -/
def getClientLoop (maxClients : Nat) (clients : Nat → Client σ D) (id start : Nat) :
    Nat → Nat → Option (Option Nat)
  | 0, _ => none
  | fuel + 1, slot =>
      match (clients slot).id with
      | none => some none
      | some occupant =>
          if occupant = id then some (some slot)
          else if slot + 1 = maxClients then getClientLoop maxClients clients id start fuel 0
          else if slot + 1 = start then some none
          else getClientLoop maxClients clients id start fuel (slot + 1)

/-- `get_client`. The id is an `int` there: `2 ^ 32 - 1` is `-1`, and any other
from `2 ^ 31` on is negative and leads outside the table. -/
def getClient (maxClients : Nat) (clients : Nat → Client σ D) (id : Nat) :
    Option (Option Nat) :=
  if id = 2 ^ 32 - 1 then some none
  else if 2 ^ 31 ≤ id then none
  else getClientLoop maxClients clients id (id % maxClients) (maxClients + 1) (id % maxClients)

/-- `get_available_client_slot`. -/
def getAvailableClientSlot (maxClients : Nat) (clients : Nat → Client σ D) (id : Nat) :
    Option Nat :=
  RingWalk.walk maxClients (fun slot => (clients slot).id.isNone) maxClients (id % maxClients)

/-- What a slot holds after `add_client`. -/
def newClient (config : Config σ D K) (passwords : Passwords K) (id : Nat) : Client σ D where
  id := some id
  database := config.initialDatabase
  password := if passwords.list.length = 0 then defaultPassword else emptyPassword
  protover := .resp2
  locked := false
  waitingBlock := none
  writeBuf := id

/-- `add_client`. Allocations succeed; `write_arena` hands out every region once. -/
def addClient (config : Config σ D K) (state : State σ D K threads) :
    Option (State σ D K threads) := do
  let id := state.lastConnectionClientId
  let slot ← getAvailableClientSlot config.maxClients state.clients id
  some { state with
    clients := Function.update state.clients slot (newClient config state.passwords id)
    clientCount := state.clientCount + 1
    lastConnectionClientId := id + 1 }

/-- The connection is refused: the check of `handle_events`, and that of
`accept_client`. -/
def acceptRefused (config : Config σ D K) (state : State σ D K threads) : Bool :=
  state.lastConnectionClientId == 2 ^ 32 - 1 || state.clientCount == config.maxClients

/-- `accept_client`. -/
def acceptClient (config : Config σ D K) (state : State σ D K threads) :
    Option (State σ D K threads) :=
  if acceptRefused config state then some state else addClient config state

/-- A slot after `remove_client`: `free_client` frees its waiting block. -/
def Client.removed (client : Client σ D) : Client σ D :=
  { client with id := none, waitingBlock := none }

/-- `remove_client`; false when the id is not found. -/
def removeClient (config : Config σ D K) (state : State σ D K threads) (id : Nat) :
    Option (State σ D K threads × Bool) := do
  match ← getClient config.maxClients state.clients id with
  | none => some (state, false)
  | some slot =>
      some ({ state.updateClient slot Client.removed with
        clientCount := state.clientCount - 1 }, true)

/-- `terminate_connection`, which asserts that the client is found by its id.
Removing it from the multiplexing succeeds. -/
def terminateConnection (config : Config σ D K) (state : State σ D K threads) (slot : Nat) :
    Option (State σ D K threads) := do
  let id ← (state.clients slot).id
  let (state, removed) ← removeClient config state id
  if removed then some state else none

/-! ## The password list -/

namespace Passwords

/-- `password->permissions`; a freed password must not be read. -/
def permissions (passwords : Passwords K) (password : Nat) : Option Permissions :=
  (passwords.objects password).map Password.permissions

def setPermissions (passwords : Passwords K) (password : Nat) (permissions : Permissions) :
    Passwords K :=
  { passwords with
    objects := Function.update passwords.objects password
      ((passwords.objects password).map fun object => { object with permissions := permissions }) }

/-- `where_password`. -/
def wherePassword [DecidableEq K] (config : Config σ D K) (passwords : Passwords K)
    (value : Bytes) : Option Nat :=
  passwords.list.findIdx? fun password =>
    (passwords.objects password).any fun object => object.data = some (config.derive value)

/-- A new `Password` at an address that was never used. -/
def allocate (passwords : Passwords K) (object : Password K) : Passwords K :=
  { objects := Function.update passwords.objects passwords.nextAddress (some object)
    list := passwords.list ++ [passwords.nextAddress]
    nextAddress := passwords.nextAddress + 1 }

/-- `passwords[at]` freed and taken out of the list. -/
def release (passwords : Passwords K) (index : Nat) : Passwords K :=
  { passwords with
    objects := Function.update passwords.objects (passwords.list.getD index 0) none
    list := passwords.list.eraseIdx index }

end Passwords

/-- What `add_password` does for the first password: every client still has the
default password, which loses its permissions, and the executor, which must not be
`NULL`, gets the full one. -/
def claimFirstPassword (state : State σ D K threads) (client : Option Nat) :
    Option (State σ D K threads) :=
  if state.passwords.list.length = 0 then do
    let slot ← client
    let held := (state.clients slot).password
    let state := { state with passwords := state.passwords.setPermissions held Permission.none }
    some (state.updateClient slot fun client => { client with password := fullPassword })
  else some state

/-- `add_password`; false when `amalloc` has no object for it. The array and the key derivation
succeed. -/
def addPassword (config : Config σ D K) (state : State σ D K threads) (client : Option Nat)
    (data : Bytes) (permissions : Permissions) (allocated : Bool) :
    Option (State σ D K threads × Bool) :=
  if allocated = false then some (state, false)
  else do
    let state ← claimFirstPassword state client
    let password : Password K := ⟨some (config.derive data), permissions⟩
    some ({ state with passwords := state.passwords.allocate password }, true)

/-- A password that is added comes behind the others, once the first one is claimed. -/
theorem addPassword_eq_some {config : Config σ D K} {state next : State σ D K threads}
    {client : Option Nat} {data : Bytes} {permissions : Permissions}
    (added : addPassword config state client data permissions true = some (next, true)) :
    ∃ claimed, claimFirstPassword state client = some claimed ∧ next = { claimed with
      passwords := claimed.passwords.allocate ⟨some (config.derive data), permissions⟩ } := by
  rcases Option.bind_eq_some_iff.mp added with ⟨claimed, claim, added⟩
  cases added
  exact ⟨claimed, claim, rfl⟩

/-- `remove_password_from_clients`. -/
def removePasswordFromClients (clients : Nat → Client σ D) (password : Nat) :
    Nat → Client σ D :=
  fun slot =>
    if (clients slot).id.isSome ∧ (clients slot).password = password then
      { clients slot with password := emptyPassword }
    else clients slot

/-- What `remove_password` does for the last password: the executor, which must
not be `NULL`, gets the full one. -/
def releaseLastPassword (state : State σ D K threads) (executor : Option Nat) :
    Option (State σ D K threads) :=
  if state.passwords.list.length = 1 then do
    let slot ← executor
    some (state.updateClient slot fun client => { client with password := fullPassword })
  else some state

/-- `remove_password`; false when there is no such password. -/
def removePassword [DecidableEq K] (config : Config σ D K) (state : State σ D K threads)
    (executor : Option Nat) (value : Bytes) : Option (State σ D K threads × Bool) :=
  match state.passwords.wherePassword config value with
  | none => some (state, false)
  | some index => do
      let state ← releaseLastPassword state executor
      let password := state.passwords.list.getD index 0
      some ({ state with
        clients := removePasswordFromClients state.clients password
        passwords := state.passwords.release index }, true)

end TellyDB.Server
