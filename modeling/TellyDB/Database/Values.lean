import TellyDB.Utils.HashTable
import TellyDB.Utils.Strings
import TellyDB.Lib.Positional

/-!
Owns the values a database holds, and the texts in which GMP takes and gives
numbers.

A double is what `mpf_get_str` says of it in base 16: a sign, the digits without
leading and trailing zeros, and the exponent, so its value is ±0.d₁d₂… · 16^exponent.
-/

namespace TellyDB.Database

open Resp Utils Lib.Positional

/-- `TellyType`. -/
inductive TellyType where
  | unknown
  | null
  | int
  | double
  | str
  | bool
  | hashtable
  | list
deriving DecidableEq

namespace TellyType

def code : TellyType → UInt8
  | unknown => 0
  | null => 1
  | int => 2
  | double => 3
  | str => 4
  | bool => 5
  | hashtable => 6
  | list => 7

/-- The type of a byte; `none` is not a type. -/
def ofCode : UInt8 → Option TellyType
  | 0 => unknown
  | 1 => null
  | 2 => int
  | 3 => double
  | 4 => str
  | 5 => bool
  | 6 => hashtable
  | 7 => list
  | _ => none

@[simp] theorem ofCode_code (type : TellyType) : ofCode type.code = some type := by
  cases type <;> rfl

end TellyType

/-- `FLOAT_PRECISION / 8 * 2`, the digits `mpf_get_str` is asked for. -/
def doubleDigits : Nat := 256

instance instNeZeroSixteen : NeZero 16 := ⟨Nat.succ_ne_zero 15⟩

/-- `mpf_t`, as `mpf_get_str` describes it. -/
@[ext]
structure Double where
  negative : Bool
  digits : List (Fin 16)
  exponent : Int
  leading : digits.head? ≠ some 0
  trailing : digits.getLast? ≠ some 0
  zero : digits = [] → negative = false ∧ exponent = 0
  short : digits.length ≤ doubleDigits
deriving DecidableEq

/-- A value that is no collection. -/
inductive Scalar where
  | unknown
  | null
  | int (number : Int)
  | double (number : Double)
  | str (string : Bytes)
  | bool (boolean : Bool)
deriving DecidableEq

def Scalar.type : Scalar → TellyType
  | unknown => .unknown
  | null => .null
  | int _ => .int
  | double _ => .double
  | str _ => .str
  | bool _ => .bool

/-- `string_hash` and `string_compare`. -/
def stringKeys : KeyFunctions Bytes where
  hash := stringHash
  keyCompare left right := left == some right
  compare_null := fun _ => rfl
  compare_self := fun key => by simp
  compare_symm := fun same => by
    rw [beq_iff_eq, Option.some.injEq] at same ⊢
    exact same.symm
  compare_trans := fun first second => by
    rw [beq_iff_eq, Option.some.injEq] at first second ⊢
    exact first.trans second
  hash_eq := fun same => by
    rw [beq_iff_eq, Option.some.injEq] at same
    rw [same]

/-- `Value`. The fields of a hash table hold their own values. -/
inductive Value where
  | scalar (value : Scalar)
  | hashtable (table : HashTable Bytes Scalar)
  | list (elements : List Scalar)

/-- `KeyValue`, without its expiry. -/
structure KeyValue where
  key : Bytes
  value : Value

/-! ## Texts of numbers -/

/-- A lower-case hexadecimal digit. -/
def hexCharacter (digit : Fin 16) : UInt8 :=
  if digit.val < 10 then 0x30 + UInt8.ofNat digit.val else 0x57 + UInt8.ofNat digit.val

/-- The value of a hexadecimal digit. -/
def hexValue (character : UInt8) : Option (Fin 16) :=
  if 0x30 ≤ character ∧ character ≤ 0x39 then some (Fin.ofNat 16 (character - 0x30).toNat)
  else if 0x61 ≤ character ∧ character ≤ 0x66 then some (Fin.ofNat 16 (character - 0x57).toNat)
  else none

@[simp] theorem hexValue_hexCharacter (digit : Fin 16) :
    hexValue (hexCharacter digit) = some digit := by
  revert digit
  decide

theorem hexCharacter_ne_zero (digit : Fin 16) : hexCharacter digit ≠ 0 := by
  revert digit
  decide

/-- The digits of a number in base 16, highest first, `0` for zero. -/
def hexDigits (number : Nat) : List (Fin 16) :=
  if number = 0 then [0] else ((Nat.digits 16 number).map (Fin.ofNat 16)).reverse

/-- `-` in front of a negative number. -/
def signText (negative : Bool) : Bytes := if negative then [0x2d] else []

/-- `mpz_get_str(NULL, 16, number)` with the NUL that ends it. -/
def mpzGetStr (number : Int) : Bytes :=
  signText (decide (number < 0)) ++ (hexDigits number.natAbs).map hexCharacter ++ [0]

/-- `mpz_sizeinbase(number, 2)`. -/
def mpzSizeinbase2 (number : Int) : Nat :=
  if number = 0 then 1 else Nat.log2 number.natAbs + 1

/-- `mpf_get_str(NULL, &exp, 16, 256, number)` with the NUL that ends it. -/
def mpfGetStr (number : Double) : Bytes :=
  signText number.negative ++ number.digits.map hexCharacter ++ [0]

/-- `strtol(byte, NULL, 16)` of two characters. -/
def strtol (first second : UInt8) : UInt8 :=
  match hexValue first, hexValue second with
  | some high, some low => UInt8.ofNat (16 * high.val + low.val)
  | some only, none => UInt8.ofNat only.val
  | none, _ => 0

end TellyDB.Database
