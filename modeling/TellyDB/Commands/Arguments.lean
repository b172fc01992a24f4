import TellyDB.Database.Values
import Mathlib.Data.List.TakeWhile

/-!
Owns the arguments of a command as the handlers read them: `utils/number.c`, the
string comparisons, and how GMP reads a decimal integer.

An argument is a piece of the read buffer. What reads it up to a NUL goes on behind
its end.
-/

namespace TellyDB.Commands

open Resp Database

/-- A `string_t` of the read buffer, with what lies behind it there. -/
structure Argument where
  bytes : Bytes
  following : Bytes
deriving DecidableEq

namespace Argument

/-- What the `value` of the argument points to. -/
def memory (argument : Argument) : Bytes := argument.bytes ++ argument.following

/-- `SSTREQ` with a constant. -/
def sstreq (argument : Argument) (constant : String) : Bool := argument.bytes == text constant

/-- `streq` with a constant. -/
def streq (argument : Argument) (constant : String) : Bool :=
  (text constant ++ [0]).isPrefixOf argument.memory

/-- `to_uppercase` in place. -/
def uppercase (argument : Argument) : Argument :=
  { argument with bytes := toUppercase argument.bytes }

end Argument

/-! ## Numbers -/

def isDigit (byte : UInt8) : Bool := 0x30 ≤ byte ∧ byte ≤ 0x39

def digitValue (byte : UInt8) : Nat := (byte - 0x30).toNat

/-- `try_parse_integer`. Its loop goes on behind the argument, and `len` only gets back to 0 at the
end of the argument. -/
def tryParseInteger (argument : Argument) : Bool :=
  match argument.memory with
  | 0x2d :: rest =>
      argument.bytes.length != 1 && rest.head? != some 0x30 &&
        (rest.takeWhile isDigit).length + 1 == argument.bytes.length
  | memory =>
      (memory.takeWhile isDigit).length != 0 &&
        (memory.takeWhile isDigit).length == argument.bytes.length

/-- The loop of `try_parse_double`. -/
def parseDoubleLoop : Bytes → Bool → Bool
  | [], point => point
  | byte :: rest, point =>
      if byte = 0x2e then if point then false else parseDoubleLoop rest true
      else if isDigit byte then parseDoubleLoop rest point else false

/-- `try_parse_double`. An empty argument is refused whatever lies behind it. -/
def tryParseDouble (argument : Argument) : Bool :=
  match argument.bytes with
  | 0x2d :: rest => parseDoubleLoop rest false
  | bytes => parseDoubleLoop bytes false

/-- What `atoull_s` leaves in `errno`. -/
inductive Errno where
  | zero
  | einval
  | erange
deriving DecidableEq

/-- `UINT64_MAX`. -/
def uint64Max : Nat := 2 ^ 64 - 1

/-- The loop of `atoull_s`. -/
def atoullLoop : Bytes → Nat → Nat × Errno
  | [], result => (result, .zero)
  | byte :: rest, result =>
      if isDigit byte then
        let digit := digitValue byte
        if result > uint64Max / 10 ∨ (result = uint64Max / 10 ∧ digit > uint64Max % 10) then
          (uint64Max, .erange)
        else atoullLoop rest (result * 10 + digit)
      else (uint64Max, .einval)

/-- `atoull_s` behind the sign. -/
def atoullDigits (value : Bytes) : Nat × Errno :=
  let value := value.dropWhile (· == 0x30)
  if value.length = 0 then (0, .zero)
  else if value.length > 20 then (uint64Max, .erange)
  else atoullLoop value 0

/-- `atoull_s` of a string that is not empty. -/
def atoullS (string : Bytes) : Nat × Errno :=
  match string with
  | 0x2d :: _ => (uint64Max, .einval)
  | 0x2b :: value => if value.length = 0 then (uint64Max, .einval) else atoullDigits value
  | value => atoullDigits value

/-! ## GMP -/

/-- The C string at this place of the memory. -/
def cString (memory : Bytes) : Bytes := memory.takeWhile (· != 0)

/-- `isspace`. -/
def isSpace (byte : UInt8) : Bool := byte = 0x20 ∨ (0x09 ≤ byte ∧ byte ≤ 0x0d)

/-- The number that decimal digits denote. -/
def decimalValue (digits : Bytes) : Nat :=
  digits.foldl (fun number digit => 10 * number + digitValue digit) 0

/-- `mpz_init_set_str(…, 10)`, which leaves 0 where it fails. -/
def mpzInitSetStr (memory : Bytes) : Int :=
  let string := (cString memory).dropWhile isSpace
  let digits := match string with | 0x2d :: rest => rest | _ => string
  let number : Int := if (digits.head?.any isDigit) &&
    (digits.filter fun byte => !isSpace byte).all isDigit then
      decimalValue (digits.filter fun byte => !isSpace byte) else 0
  if string.head? = some 0x2d then -number else number

/-- The functions of GMP on `mpf_t` that the commands use. `setStr` is `mpf_init2` with
`FLOAT_PRECISION` and `mpf_set_str(…, 10)` of what lies at the pointer. -/
structure Mpf where
  setStr : Bytes → Double
  setZ : Int → Double
  neg : Double → Double
  add : Double → Double → Double
  sub : Double → Double → Double
  addUi : Double → Nat → Double
  subUi : Double → Nat → Double

theorem noDigits_head : ([] : List (Fin 16)).head? ≠ some 0 := nofun

theorem noDigits_last : ([] : List (Fin 16)).getLast? ≠ some 0 := nofun

theorem noDigits_zero (_ : ([] : List (Fin 16)) = []) : false = false ∧ (0 : Int) = 0 := ⟨rfl, rfl⟩

/-- Stands for these functions where no double occurs. -/
def Mpf.unused : Mpf :=
  let zero : Double :=
    ⟨false, [], 0, noDigits_head, noDigits_last, noDigits_zero, Nat.zero_le doubleDigits⟩
  ⟨fun _ => zero, fun _ => zero, fun _ => zero, fun _ _ => zero, fun _ _ => zero,
    fun _ _ => zero, fun _ _ => zero⟩

variable (mpf : Mpf)

/-- The value that LPUSH and RPUSH make of an argument. -/
def pushedValue (input : Argument) : Scalar :=
  if tryParseInteger input then .int (mpzInitSetStr input.memory)
  else if tryParseDouble input then .double (mpf.setStr input.memory)
  else if input.sstreq "true" || input.sstreq "false" then .bool (input.sstreq "true")
  else if input.sstreq "null" then .null
  else .str input.bytes

/-- The value that HSET makes of an argument. -/
def fieldValue (input : Argument) : Scalar :=
  if tryParseInteger input || tryParseDouble input then
    if tryParseInteger input then .int (mpzInitSetStr input.memory)
    else .double (mpf.setStr input.memory)
  else if input.sstreq "true" || input.streq "false" then .bool (input.sstreq "true")
  else if input.streq "null" then .null
  else .str input.bytes

/-! ## C strings -/

/-- The C string of an argument, if a NUL ends it. -/
def cWord (argument : Argument) : Option Bytes :=
  if 0 ∈ argument.memory then some (cString argument.memory) else none

theorem cString_append {bytes : Bytes} (clean : 0 ∉ bytes) (following : Bytes) :
    cString (bytes ++ following) = bytes ++ cString following := by
  apply List.takeWhile_append_of_pos
  intro byte member
  rw [bne_iff_ne]
  exact fun same => clean (same ▸ member)

/-- A C string lies before its NUL. -/
theorem cString_ended {memory : Bytes} (ended : 0 ∈ memory) :
    ∃ rest, memory = cString memory ++ 0 :: rest := by
  have split := List.takeWhile_append_dropWhile (p := (· != (0 : UInt8))) (l := memory)
  have first := List.head?_dropWhile_not (· != (0 : UInt8)) memory
  cases rest : memory.dropWhile (· != 0) with
  | nil =>
      have all := List.dropWhile_eq_nil_iff.mp rest 0 ended
      cases all
  | cons byte others =>
      rw [rest] at split first
      have zero : byte = 0 := by simpa using first
      exact ⟨others, by rw [← zero]; exact split.symm⟩

/-- `streq` compares the C string. -/
theorem streq_iff {argument : Argument} {constant : String} (clean : 0 ∉ text constant) :
    argument.streq constant = true ↔ cWord argument = some (text constant) := by
  rw [Argument.streq, List.isPrefixOf_iff_prefix, cWord]
  constructor
  · rintro ⟨rest, same⟩
    rw [← same, if_pos (by simp), List.append_assoc, cString_append clean]
    simp [cString]
  · intro word
    split at word
    · next ended =>
        obtain ⟨rest, same⟩ := cString_ended ended
        rw [Option.some.inj word] at same
        exact ⟨rest, by rw [same]; simp⟩
    · cases word

end TellyDB.Commands
