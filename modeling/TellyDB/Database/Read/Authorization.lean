import TellyDB.Database.File.Save
import TellyDB.Database.Read.Bytes

/-!
Owns `get_authorization_from_file` of `server/auth.c`: the password count, and the
passwords over as many blocks as they take. An operation is `none` when it copies
from outside the block, writes behind the password count or the data of a password,
or uses a byte outside the block.
-/

namespace TellyDB.Database.Read

open Resp Lib.Slices Lib.Positional
open File (Password)

/-- `op`, with what is retrieved of the password that the end of a block interrupts. -/
inductive Interruption where
  | none
  | value (data : Bytes)
  | permissions (data : Bytes)
deriving DecidableEq

/-- What the loop over the passwords leaves at the end of a block: the passwords up to
`password_at`, `at` and `op`. -/
structure Retrieval where
  passwords : List Password
  position : Nat
  op : Interruption

/-- The data and the permissions as one password, whose data has 48 bytes. -/
def makePassword (data : Bytes) (permissions : UInt8) : Option Password :=
  if length_eq : data.length = 48 then some ⟨data, permissions, length_eq⟩ else none

/-- The permissions of a password whose data is retrieved; `some none` is the end of the block. -/
def retrievePermissions (block : Bytes) (blockSize position : Nat) (data : Bytes) :
    Option (Option Password) :=
  if blockSize < position + 1 then some none
  else do
    let permissions ← block[position]?
    let password ← makePassword data permissions
    some (some password)

/-- The loop over the passwords in one block, with how many are missing. -/
def retrievePasswords (block : Bytes) (blockSize : Nat) :
    Nat → Nat → List Password → Option Retrieval
  | 0, position, passwords => some ⟨passwords, position, .none⟩
  | missing + 1, position, passwords =>
      if blockSize < position + 48 then do
        let data ← copyBlock block position (blockSize - position)
        some ⟨passwords, position, .value data⟩
      else do
        let data ← copyBlock block position 48
        match ← retrievePermissions block blockSize (position + 48) data with
        | none => some ⟨passwords, position + 48, .permissions data⟩
        | some password =>
            retrievePasswords block blockSize missing (position + 49) (passwords ++ [password])

/-- The `switch` at the start of a block and the loop behind it. -/
def resume (block : Bytes) (blockSize missing : Nat) (passwords : List Password) :
    Interruption → Option Retrieval
  | .none => retrievePasswords block blockSize missing 0 passwords
  | .value data => do
      let overflow := 48 - data.length
      let rest ← copyBlock block 0 overflow
      match ← retrievePermissions block blockSize overflow (data ++ rest) with
      | none => some ⟨passwords, overflow, .permissions (data ++ rest)⟩
      | some password =>
          retrievePasswords block blockSize (missing - 1) (overflow + 1) (passwords ++ [password])
  | .permissions data => do
      let permissions ← block[0]?
      let password ← makePassword data permissions
      retrievePasswords block blockSize (missing - 1) 1 (passwords ++ [password])

/-- What `get_authorization_from_file` leaves: the passwords, where in the file the block that is
loaded starts, and what it returns. -/
structure Authorization where
  passwords : List Password
  start : Nat
  filled : Nat

/-- The loop over the blocks, behind the turn that has left `retrieval` of the block at `start`.
Every further turn reads some of the file, of which `fuel` bytes are left at most. -/
def retrieveBlocks (passwordCount : Nat) :
    Nat → GenericArguments → Nat → Nat → Retrieval → Option Authorization
  | fuel, arguments, start, total, retrieval =>
      let total := total + retrieval.position
      let done : Authorization := ⟨retrieval.passwords, start, total % arguments.blockSize⟩
      if retrieval.passwords.length = passwordCount then some done
      else
        let bytes := slice arguments.file arguments.offset arguments.blockSize
        if bytes = [] then some done
        else match fuel with
          | 0 => none
          | fuel + 1 => do
              let block := bytes ++ arguments.block.drop bytes.length
              let next ← resume block arguments.blockSize
                (passwordCount - retrieval.passwords.length) retrieval.passwords retrieval.op
              retrieveBlocks passwordCount fuel
                { arguments with offset := arguments.offset + bytes.length, block }
                arguments.offset total next

/-- `get_authorization_from_file` with the first block loaded. The password count is a 32-bit
variable that holds 0. -/
def getAuthorizationFromFile (arguments : GenericArguments) : Option Authorization := do
  let byteCount ← arguments.block[6]?
  let byteCount := byteCount.toNat
  if 4 < byteCount then none
  else do
    let bytes ← copyBlock arguments.block 7 byteCount
    let passwordCount := ofLittleEndian bytes
    if passwordCount = 0 then some ⟨[], 0, 7 % arguments.blockSize⟩
    else do
      let retrieval ← retrievePasswords arguments.block arguments.blockSize passwordCount
        (7 + byteCount) []
      retrieveBlocks passwordCount arguments.file.length arguments 0 0 retrieval

end TellyDB.Database.Read
