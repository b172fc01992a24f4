import TellyDB.Database.File.Blocks
import TellyDB.Database.File.Generate

/-!
Owns `save_data` of `database/file/file.c`: headers, passwords, databases, the
final block and the cut of the file. Allocations and `lseek` succeed.

An operation is `none` when it copies past the block or past what it copies
from, or uses buffers that a failed write has freed.
-/

namespace TellyDB.Database.File

open Resp Lib.Slices Lib.Positional

/-- `Password`, with the byte of its permissions that a file holds. -/
structure Password where
  data : Bytes
  permissions : UInt8
  length_eq : data.length = 48
deriving DecidableEq

/-- A database, with the bytes that `generate_value` makes of its entries. -/
structure SavedDatabase where
  name : Bytes
  count : Nat
  records : List Bytes
deriving DecidableEq

/-- `DATABASE_FILE_CONSTANT` in network order. -/
def magic : Bytes := [0x18, 0x10]

/-- A write of bytes into the block at an offset. -/
def storeBlock (block : Bytes) (offset : Nat) (bytes : Bytes) : Option Bytes :=
  copy block offset bytes 0 bytes.length

/-- `(password_count != 0) ? (log2(password_count) + 1) : 0`. -/
def passwordCountByteCount (passwordCount : Nat) : Nat :=
  if passwordCount ≠ 0 then Nat.log2 passwordCount + 1 else 0

/-- `generate_headers` and the password count, which is copied from a 32-bit variable. -/
def saveHeaders (capacity serverAge passwordCount : Nat) : Option State := do
  let byteCount := passwordCountByteCount passwordCount
  let block ← storeBlock (List.replicate capacity 0) 0 (magic ++ littleEndian 4 serverAge)
  let block ← storeBlock block 6 [UInt8.ofNat byteCount]
  let block ← copy block 7 (littleEndian 4 passwordCount) 0 byteCount
  let blockSize := 7 + byteCount
  some {
    size := if passwordCount = 0 then blockSize else 0
    blockSize
    blockCapacity := capacity
    block
    written := []
    issued := 0
    freed := false }

section Functions

-- Whether the call of `write` of this number succeeds.
variable (succeeds : Nat → Bool)

/-- One turn of the loop over the passwords. -/
def savePassword (state : State) (password : Password) : Option State :=
  let newLength := state.blockSize + 49
  if state.blockCapacity < newLength then do
    let allowed := newLength - state.blockCapacity
    let block ← copy state.block state.blockSize password.data 0 allowed
    let state := writeBlock succeeds { state with block }
    if state.freed then some state
    else do
      let remaining := 48 - allowed
      let block ← copy state.block 0 password.data 0 remaining
      let block ← storeBlock block remaining [password.permissions]
      some { state with
        block, blockSize := remaining + 1
        size := state.size + state.blockCapacity + (remaining + 1) }
  else do
    let block ← copy state.block state.blockSize password.data 0 48
    let block ← storeBlock block (state.blockSize + 48) [password.permissions]
    some { state with block, blockSize := newLength, size := state.size + newLength }

/-- The loop over the passwords, which a failed write ends. -/
def savePasswords (state : State) : List Password → Option State
  | [] => some state
  | password :: rest => do
      let state ← savePassword succeeds state password
      if state.freed then some state else savePasswords state rest

/-- One turn of the loop over the databases. Without entries there is nothing to dump; behind
`dump_into_file` it frees the buffer that a failed write has freed. -/
def saveDatabase (state : State) (database : SavedDatabase) : Option State := do
  let block ← storeBlock state.block state.blockSize (littleEndian 8 database.count)
  let name := generateStringValue database.name
  let block ← storeBlock block (state.blockSize + 8) name
  let state ← dumpRecords succeeds { state with
    block, blockSize := state.blockSize + 8 + name.length
    size := state.size + (name.length + 8) } database.records
  if state.freed then none else some state

/-- The loop over the databases. -/
def saveDatabases (state : State) : List SavedDatabase → Option State
  | [] => some state
  | database :: rest => do
      let state ← saveDatabase succeeds state database
      saveDatabases state rest

/-- The last block, unless it is full. -/
def flushBlock (state : State) : State :=
  if state.blockSize ≠ state.blockCapacity then writeBlock succeeds state else state

end Functions

/-- A file whose first bytes are written. -/
def overwrite (file bytes : Bytes) : Bytes := bytes ++ file.drop bytes.length

/-- `ftruncate`. -/
def truncate (file : Bytes) (size : Nat) : Bytes :=
  file.take size ++ List.replicate (size - file.length) 0

/-- What `save_data` finds: the age of the server, the passwords, the databases, and the file. -/
structure Saving where
  serverAge : Nat
  passwords : List Password
  databases : List SavedDatabase
  file : Bytes

/-- `save_data`: whether it returns 0, and the file it leaves. -/
def saveData (succeeds : Nat → Bool) (truncates : Bool) (capacity : Nat) (saving : Saving) :
    Option (Bool × Bytes) := do
  let state ← saveHeaders capacity saving.serverAge saving.passwords.length
  let state ← savePasswords succeeds state saving.passwords
  if state.freed then some (false, overwrite saving.file state.written.flatten)
  else do
    let state ← saveDatabases succeeds state saving.databases
    let state := flushBlock succeeds state
    let file := overwrite saving.file state.written.flatten
    if state.freed || !truncates then some (false, file)
    else some (true, truncate file state.size)

/-! ## What a file holds -/

/-- Each password and its permissions. -/
def passwordBytes (password : Password) : Bytes := password.data ++ [password.permissions]

/-- The password count and the passwords. -/
def authorizationBytes (passwords : List Password) : Bytes :=
  let byteCount := passwordCountByteCount passwords.length
  UInt8.ofNat byteCount :: littleEndian byteCount passwords.length ++
    (passwords.map passwordBytes).flatten

/-- The entry count and the name. -/
def headerBytes (database : SavedDatabase) : Bytes :=
  littleEndian 8 database.count ++ generateStringValue database.name

def databaseBytes (database : SavedDatabase) : Bytes :=
  headerBytes database ++ database.records.flatten

/-- The headers, the authorization part and the databases. -/
def fileBytes (saving : Saving) : Bytes :=
  magic ++ littleEndian 4 saving.serverAge ++ authorizationBytes saving.passwords ++
    (saving.databases.map databaseBytes).flatten

end TellyDB.Database.File
