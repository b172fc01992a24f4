import TellyDB.Resp.Replies
import Mathlib.Data.Nat.Basic

/-!
Owns `string_hash` of `utils/string.c`, with `char` signed, and the bit and byte counts of
`utils/number.c`.
-/

namespace TellyDB.Utils

open Resp

/-- `*c` where it is combined with an `unsigned long`. -/
def signExtend (byte : UInt8) : UInt64 :=
  if byte < 0x80 then byte.toUInt64 else byte.toUInt64 ||| 0xffffffffffffff00

/-- The loop of `string_hash`. -/
def stringHashFrom (n ret : UInt64) : Bytes → UInt64
  | [] => ret
  | byte :: rest =>
      let v := n ||| signExtend byte
      let r := ((v >>> 2) ^^^ v) &&& 0x0f
      let ret := ((ret <<< r) ||| (ret >>> (32 - r))) &&& 0xffffffff
      stringHashFrom (n + 0x100) (ret ^^^ (v * v)) rest

/-- `string_hash`. -/
def stringHash (string : Bytes) : Nat :=
  let ret := stringHashFrom 0x100 0 string
  ((ret >>> 16) ^^^ ret).toNat

/-- `get_bit_count`. -/
def getBitCount (value : Nat) : Nat := if value = 0 then 0 else Nat.log2 value + 1

/-- `get_byte_count`. -/
def getByteCount (value : Nat) : Nat := if value = 0 then 0 else (Nat.log2 value + 1 + 7) / 8

end TellyDB.Utils
