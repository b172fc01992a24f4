import TellyDB.Lib.Slices
import TellyDB.Resp.Replies
import Mathlib.Algebra.Order.Ring.Nat

/-!
Owns the block writer of `database/file/file.c`: how `dump_into_file` puts the
bytes of a record into the pending block and writes the blocks that are full.

An operation is `none` when it copies past the block or past the record, or
uses buffers that a failed write has freed.
-/

namespace TellyDB.Database.File

open Resp Lib.Slices

/-- `State`, with the blocks written so far, how often `write` was called, and whether a failed
write has freed the buffers. -/
structure State where
  size : Nat
  blockSize : Nat
  blockCapacity : Nat
  block : Bytes
  written : List Bytes
  issued : Nat
  freed : Bool

section Functions

-- Whether the call of `write` of this number succeeds.
variable (succeeds : Nat → Bool)

/-- `write(fd, block, block_capacity)`, and `interrupt_dumping_into_file` where it fails. -/
def writeBlock (state : State) : State :=
  if succeeds state.issued then
    { state with issued := state.issued + 1, written := state.written ++ [state.block] }
  else { state with issued := state.issued + 1, freed := true }

/-- The loop of `dump_into_file` over the blocks that the record fills, with what remains. -/
def dumpBlocks (record : Bytes) : Nat → State → Nat → Option (State × Nat)
  | 0, _, _ => none
  | turns + 1, state, remaining =>
      if state.blockCapacity < remaining then do
        let block ← copy state.block 0 record (record.length - remaining) state.blockCapacity
        let state := writeBlock succeeds { state with block }
        if state.freed then some (state, remaining)
        else dumpBlocks record turns state (remaining - state.blockCapacity)
      else some (state, remaining)

/-- `dump_into_file` once `generate_value` has put the record into the buffer. Every turn of its
loop lowers `remaining`. -/
def dumpRecord (state : State) (record : Bytes) : Option State :=
  let kvSize := record.length
  let blockCount :=
    ((state.blockSize + kvSize + state.blockCapacity - 1) / state.blockCapacity) % UInt32.size
  if state.freed then none
  else if blockCount ≠ 1 then do
    let complete :=
      (((state.blockCapacity : Int) - state.blockSize) % (UInt16.size : Nat)).toNat
    let block ← copy state.block state.blockSize record 0 complete
    let state := writeBlock succeeds { state with block }
    if state.freed then some state
    else do
      let (state, remaining) ← dumpBlocks succeeds record (kvSize + 1) state (kvSize - complete)
      if state.freed then some state
      else do
        let block ← copy state.block 0 record (kvSize - remaining) remaining
        some { state with block, blockSize := remaining, size := state.size + kvSize }
  else do
    let block ← copy state.block state.blockSize record 0 kvSize
    some { state with
      block, blockSize := state.blockSize + kvSize, size := state.size + kvSize }

/-- `dump_into_file` for one record after the other. -/
def dumpRecords (state : State) : List Bytes → Option State
  | [] => some state
  | record :: rest => do
      let state ← dumpRecord succeeds state record
      dumpRecords state rest

end Functions

end TellyDB.Database.File
