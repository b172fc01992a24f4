import TellyDB.Lib.Slices
import TellyDB.Resp.Replies
import Mathlib.Algebra.Order.Ring.Nat

/-!
Owns the block reader of `database/read/bytes.c`. An operation is `none` when it
copies from outside the block or an assertion fails.
-/

namespace TellyDB.Database.Read

open Resp Lib.Slices

/-- `GenericArguments`: the file and the offset of its descriptor, the block, and `*at`. -/
structure GenericArguments where
  file : Bytes
  offset : Nat
  block : Bytes
  blockSize : Nat
  position : Nat

/-- `memcpy(data, block + start, count)`. -/
def copyBlock (block : Bytes) (start count : Nat) : Option Bytes :=
  if start + count ≤ block.length then some (slice block start count) else none

/-- `ASSERT(read(fd, block, block_size), ==, block_size)`. -/
def readBlock (arguments : GenericArguments) : Option GenericArguments :=
  let bytes := slice arguments.file arguments.offset arguments.blockSize
  if bytes.length = arguments.blockSize then
    some { arguments with
      offset := arguments.offset + bytes.length
      block := bytes ++ arguments.block.drop bytes.length }
  else none

/-- The loop of `collect_bytes`, with what it copied and what remains. -/
def collectBlocks : Nat → GenericArguments → Nat → Option (Bytes × Nat × GenericArguments)
  | 0, _, _ => none
  | turns + 1, arguments, remaining =>
      if arguments.blockSize ≤ remaining then do
        let bytes ← copyBlock arguments.block 0 arguments.blockSize
        let arguments ← readBlock arguments
        let (more, left, arguments) ←
          collectBlocks turns arguments (remaining - arguments.blockSize)
        some (bytes ++ more, left, arguments)
      else some ([], remaining, arguments)

/-- `collect_bytes`, with the bytes it delivers. Every turn of its loop lowers `remaining`. -/
def collectBytes (arguments : GenericArguments) (count : UInt32) :
    Option (Bytes × GenericArguments) :=
  let remaining := count.toNat
  if (arguments.position + remaining) % UInt32.size < arguments.blockSize then do
    let bytes ← copyBlock arguments.block arguments.position remaining
    some (bytes, { arguments with position := (arguments.position + remaining) % UInt16.size })
  else do
    let available := (arguments.blockSize - arguments.position) % UInt16.size
    let first ← copyBlock arguments.block arguments.position available
    let arguments ← readBlock arguments
    let (middle, remaining, arguments) ←
      collectBlocks (remaining + 1) arguments (remaining - available)
    let last ← copyBlock arguments.block 0 remaining
    some (first ++ middle ++ last, { arguments with position := remaining })

/-- Successive calls of `collect_bytes`, with what each of them delivers. -/
def collectAll (arguments : GenericArguments) :
    List UInt32 → Option (List Bytes × GenericArguments)
  | [] => some ([], arguments)
  | count :: rest => do
      let (bytes, arguments) ← collectBytes arguments count
      let (more, arguments) ← collectAll arguments rest
      some (bytes :: more, arguments)

/-- The reader once the first block of the file is loaded, at `start` in it. `padding` is what
the memory of the block held behind a file that is shorter. -/
def loaded (file padding : Bytes) (blockSize start : Nat) : GenericArguments where
  file := file
  offset := (slice file 0 blockSize).length
  block := slice file 0 blockSize ++ padding
  blockSize := blockSize
  position := start

/-- The sum of the byte counts. -/
def total (counts : List UInt32) : Nat := (counts.map UInt32.toNat).sum

/-- The consecutive pieces of the file from `start` on, of these lengths. -/
def pieces (file : Bytes) (start : Nat) : List UInt32 → List Bytes
  | [] => []
  | count :: rest => slice file start count.toNat :: pieces file (start + count.toNat) rest

end TellyDB.Database.Read
