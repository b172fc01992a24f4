import TellyDB.Database.Values
import TellyDB.Utils.Strings

/-!
Owns the generators of `database/file/generate.c`: the bytes of a record. A
generator is `none` where it reads outside the text of a number or calls an
entry of `GENERATORS` that is not there.
-/

namespace TellyDB.Database.File

open Resp Utils Lib.Positional

/-! ## Strings -/

/-- `generate_string_value`. -/
def generateStringValue (string : Bytes) : Bytes :=
  let byteCount := getByteCount (string.length / 64)
  let first := UInt8.ofNat (byteCount * 64) ||| UInt8.ofNat (string.length % 64)
  first :: littleEndian byteCount (string.length / 64) ++ string

/-! ## Numbers -/

/-- `hex[index]`. -/
def characterAt (hex : Bytes) (index : Int) : Option UInt8 :=
  if index < 0 then none else hex[index.toNat]?

/-- One turn of the loop over the bytes of a number. `str_index` is an 8-bit number. -/
def generateByte (hex : Bytes) (negative isEven : Bool) (i : Nat) : Option UInt8 :=
  if i = 0 ∧ isEven = false then do
    let digit ← characterAt hex negative.toNat
    some (strtol 0x30 digit)
  else do
    let strIndex := ((if isEven then i * 2 else i * 2 - 1) + negative.toNat) % UInt8.size
    let first ← characterAt hex strIndex
    let second ← characterAt hex (strIndex + 1)
    some (strtol first second)

/-- The bytes of the digits, two digits in each. -/
def generateBytes (hex : Bytes) (negative : Bool) (byteCount : Nat) : Option Bytes := do
  let last ← characterAt hex ((byteCount * 2 : Nat) - (!negative).toNat)
  (List.range byteCount).mapM (generateByte hex negative (last != 0))

/-- `(byte_count - 1) | (negative << 7)` as a byte. -/
def specifier (byteCount : Nat) (negative : Bool) : UInt8 :=
  (UInt8.ofNat byteCount - 1) ||| (if negative then 0x80 else 0)

/-- `generate_integer_value`. -/
def generateIntegerValue (number : Int) : Option Bytes := do
  let negative := decide (number < 0)
  let byteCount := ((mpzSizeinbase2 number + 7) / 8) % UInt8.size
  let bytes ← generateBytes (mpzGetStr number) negative byteCount
  some (specifier byteCount negative :: bytes)

/-- `generate_double_value`. -/
def generateDoubleValue (number : Double) : Option Bytes := do
  let hex := mpfGetStr number
  let size := hex.length - 1
  let negative := hex.head? == some 0x2d
  let byteCount := ((size - negative.toNat + 1) / 2) % UInt8.size
  let isZeroed := decide ((byteCount : Int) ≤ number.exponent)
  let indicator :=
    if isZeroed then 0 else 0x80 ||| UInt8.ofNat (number.exponent % (UInt8.size : Nat)).toNat
  let bytes ← generateBytes hex negative byteCount
  some (specifier byteCount negative :: indicator :: bytes)

/-- `generate_boolean_value`. -/
def generateBooleanValue (boolean : Bool) : Bytes := [if boolean then 1 else 0]

/-! ## Records -/

/-- `GENERATORS[value.type]`, which is NULL for what is no integer, double, string or boolean. -/
def generatePrimitive : Scalar → Option Bytes
  | .int number => generateIntegerValue number
  | .double number => generateDoubleValue number
  | .str string => some (generateStringValue string)
  | .bool boolean => some (generateBooleanValue boolean)
  | .null | .unknown => none

/-- `is_primitive`. -/
def isPrimitive : TellyType → Bool
  | .int | .double | .str | .bool => true
  | _ => false

/-- `generate_hashtable_element`. -/
def generateHashtableElement (field : Bytes × Scalar) : Option Bytes := do
  let value ← generatePrimitive field.2
  some (field.2.type.code :: generateStringValue field.1 ++ value)

/-- One turn of the loop over a list. -/
def generateListElement (element : Scalar) : Option Bytes :=
  if isPrimitive element.type then do
    let value ← generatePrimitive element
    some (element.type.code :: value)
  else some [element.type.code]

/-- The generators called for one value after the other. -/
def generateAll {α : Type} (generate : α → Option Bytes) (values : List α) : Option Bytes :=
  (values.mapM generate).map List.flatten

/-- `generate_value`, which gives no byte for a value that is no collection and has no
generator. -/
def generateValue (kv : KeyValue) : Option Bytes :=
  let key := generateStringValue kv.key
  match kv.value with
  | .scalar value =>
      if isPrimitive value.type then do
        let bytes ← generatePrimitive value
        some (key ++ value.type.code :: bytes)
      else some []
  | .hashtable table => do
      let fields ← HashTable.foreachHashtable table
        (fun element written => do
          let written ← written
          let bytes ← generateHashtableElement element
          some (written ++ bytes)) (some [])
      some (key ++ TellyType.hashtable.code :: littleEndian 8 table.capacity ++ fields ++ [0x17])
  | .list elements => do
      let bytes ← generateAll generateListElement elements
      some (key ++ TellyType.list.code :: littleEndian 8 elements.length ++ bytes)

end TellyDB.Database.File
