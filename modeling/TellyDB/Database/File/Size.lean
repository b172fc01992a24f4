import TellyDB.Database.File.Generate
import TellyDB.Utils.HashTable.Operations

/-!
Owns `database/file/size.c`, the estimates by which `save_data` allocates the buffer
for a record, and how many bytes `generate_value` puts into that buffer.
-/

namespace TellyDB.Database.File

open Resp Utils HashTable

/-! ## Estimates -/

/-- One unit more in the last place of digits that are counted from the last one on. -/
def carry : List (Fin 16) → List (Fin 16)
  | [] => [1]
  | digit :: rest => if digit = 15 then carry rest else (digit + 1) :: rest

/-- The digits that `mpf_get_str` gives when it is asked for `count` of them: it rounds a half
upwards and leaves out the zeros at the end. -/
def roundDigits (count : Nat) (digits : List (Fin 16)) : List (Fin 16) :=
  match digits[count]? with
  | none => digits
  | some next =>
      let kept := (digits.take count).reverse
      ((if 8 ≤ next.val then carry kept else kept).dropWhile (· == 0)).reverse

/-- The digits that the estimate of a double asks for. -/
def estimatedDigits : Nat := 128

/-- `mpf_get_str(NULL, &exp, 16, 128, number)` with the NUL that ends it. -/
def mpfGetStrShort (number : Double) : Bytes :=
  signText number.negative ++ (roundDigits estimatedDigits number.digits).map hexCharacter ++ [0]

/-- `get_value_size` of a string. Its length has 32 bits, and so has the sum. -/
def getStringSize (string : Bytes) : Nat :=
  (getByteCount string.length + string.length) % UInt32.size

/-- `get_value_size` of a value that is no collection. -/
def getScalarSize : Scalar → Nat
  | .unknown | .null => 0
  | .int number => ((mpzSizeinbase2 number + 7) / 8) % UInt8.size + 1
  | .double number =>
      let hex := mpfGetStrShort number
      let negative := hex.head? == some 0x2d
      (hex.length - 1 - negative.toNat + 2) % UInt8.size
  | .str string => getStringSize string
  | .bool _ => 1

/-- `get_hashtable_size`. -/
def getHashtableSize (field : Bytes × Scalar) (length : Nat) : Nat :=
  length + (1 + getStringSize field.1 + getScalarSize field.2)

/-- `get_value_size`. -/
def getValueSize : Value → Nat
  | .scalar value => getScalarSize value
  | .hashtable table => foreachHashtable table getHashtableSize 9
  | .list elements => elements.foldl (fun length value => length + (1 + getScalarSize value)) 8

/-- `get_maximum_keyvalue_size`. -/
def getMaximumKeyvalueSize (element : Bytes × KeyValue) (maxSize : Nat) : Nat :=
  let size := 1 + getStringSize element.1 + getValueSize element.2.value
  if maxSize > size then maxSize else size

/-- The `data_size` that `save_data` allocates. -/
def dataSize (table : HashTable Bytes KeyValue) : Nat :=
  foreachHashtable table getMaximumKeyvalueSize 0

/-! ## Buffers -/

/-- What `generate_string_value` adds to `len`. -/
def stringLength (string : Bytes) : Nat :=
  1 + getByteCount (string.length / 64) + string.length

/-- What `generate_integer_value` adds to `len`. -/
def integerLength (number : Int) : Nat := 1 + ((mpzSizeinbase2 number + 7) / 8) % UInt8.size

/-- What `generate_double_value` adds to `len`, also for a zero. -/
def doubleLength (number : Double) : Nat :=
  let hex := mpfGetStr number
  let size := hex.length - 1
  let negative := hex.head? == some 0x2d
  2 + ((size - negative.toNat + 1) / 2) % UInt8.size

/-- What `GENERATORS[type]` adds to `len`; without a generator nothing. -/
def primitiveLength : Scalar → Nat
  | .int number => integerLength number
  | .double number => doubleLength number
  | .str string => stringLength string
  | .bool _ => 1
  | .null | .unknown => 0

/-- How many bytes of its buffer `generate_value` fills. For a null it fills in the key and the
type, though it returns 0. -/
def filledLength (kv : KeyValue) : Nat :=
  let start := stringLength kv.key + 1
  match kv.value with
  | .scalar value => start + primitiveLength value
  | .hashtable table =>
      foreachHashtable table
        (fun field length => length + (1 + stringLength field.1 + primitiveLength field.2))
        (start + 8) + 1
  | .list elements =>
      elements.foldl (fun length value => length + (1 + primitiveLength value)) (start + 8)

/-- `generate_hashtable_element` calls no generator that is NULL. -/
def Generable : Value → Prop
  | .hashtable table => ∀ field ∈ table.present, isPrimitive field.2.type
  | _ => True

end TellyDB.Database.File
