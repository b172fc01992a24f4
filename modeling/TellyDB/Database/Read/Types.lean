import TellyDB.Lib.ByteSource
import TellyDB.Database.Values
import Mathlib.Data.List.DropRight

/-!
Owns the readers of `database/read/types.c`, over any source that hands out the
bytes to come. `none` is a request that fails or a write behind a buffer. Each
reader gives the value and the bytes it reports as collected.
-/

namespace TellyDB.Database.Read

open Resp Lib.Positional Lib.ByteSource Lib.Slices

variable {σ : Type}

section Readers

variable (source : Source σ UInt8)

/-- `collect_bytes` of one byte. -/
def collectByte : Collecting σ UInt8 := do
  let bytes ← source.request 1
  match bytes with
  | [byte] => pure byte
  | _ => fun _ => none

/-- `collect_string`. -/
def collectString : Collecting σ (Bytes × Nat) := do
  let first ← collectByte source
  let byteCount := (first >>> 6).toNat
  let bytes ← source.request byteCount
  let length := (ofLittleEndian bytes * 64) % UInt32.size ||| (first &&& 0x3f).toNat
  let string ← source.request length
  pure (string, 1 + byteCount + length)

/-- The number that the loop of `collect_integer` composes. -/
def composeInteger (data : Bytes) : Nat :=
  let shifted := data.dropLast.foldl (fun number byte => (number ||| byte.toNat) * 256) 0
  match data.getLast? with
  | none => shifted
  | some last => shifted ||| last.toNat

/-- `collect_integer`. -/
def collectInteger : Collecting σ (Int × Nat) := do
  let specifier ← collectByte source
  let negative := specifier &&& 0x80 != 0
  let byteCount := (specifier &&& 0x7f).toNat + 1
  let data ← source.request byteCount
  let number : Int := composeInteger data
  pure (if negative then -number else number, 1 + byteCount)

end Readers

/-! ## Doubles -/

/-- `"%02x"`. -/
def hexPair (byte : UInt8) : Bytes :=
  [hexCharacter (Fin.ofNat 16 (byte.toNat / 16)), hexCharacter (Fin.ofNat 16 byte.toNat)]

/-- A store into `hex` at an offset. -/
def store (hex : Bytes) (offset : Nat) (characters : Bytes) : Option Bytes :=
  copy hex offset characters 0 characters.length

/-- One turn of the loop that prints the digits with the point at `exp`. -/
def printByte (exp : Int) (hex : Bytes) (i : Nat) (byte : UInt8) : Option Bytes :=
  if exp % 2 = 0 then
    if (i * 2 : Nat) = exp then store hex (i * 2) (0x2e :: hexPair byte ++ [0])
    else store hex (i * 2 + (decide (exp < (i * 2 : Nat))).toNat) (hexPair byte ++ [0])
  else
    if (i * 2 + 1 : Nat) = exp then
      match hexPair byte with
      | first :: rest => store hex (i * 2) (first :: 0x2e :: rest)
      | [] => none
    else store hex (i * 2 + (decide (exp < (i * 2 + 1 : Nat))).toNat) (hexPair byte ++ [0])

/-- One turn of the loop that prints the digits without a point. -/
def printPlain (hex : Bytes) (i : Nat) (byte : UInt8) : Option Bytes :=
  store hex (i * 2) (hexPair byte ++ [0])

/-- The loop over the bytes, from byte `i` on. -/
def printBytes (print : Bytes → Nat → UInt8 → Option Bytes) : Bytes → Nat → Bytes → Option Bytes
  | hex, _, [] => some hex
  | hex, i, byte :: rest => do
      let hex ← print hex i byte
      printBytes print hex (i + 1) rest

/-- The digits of a text in front of the point and behind it; `none` is a text that is no
number. -/
def parseHex : Bytes → Option (List (Fin 16) × List (Fin 16))
  | [] => some ([], [])
  | character :: rest =>
      if character = 0x2e then do
        let digits ← rest.mapM hexValue
        some ([], digits)
      else do
        let digit ← hexValue character
        let (whole, fraction) ← parseHex rest
        some (digit :: whole, fraction)

/-- The digits without the zeros in front and at the end. -/
def strip (digits : List (Fin 16)) : List (Fin 16) :=
  (digits.dropWhile (· = 0)).rdropWhile (· = 0)

theorem strip_head (digits : List (Fin 16)) : (strip digits).head? ≠ some 0 := by
  intro zero
  rcases List.rdropWhile_prefix (fun digit : Fin 16 => decide (digit = 0))
    (l := digits.dropWhile (· = 0)) with ⟨rest, whole⟩
  have first := List.head?_dropWhile_not (fun digit : Fin 16 => decide (digit = 0)) digits
  rw [← whole, List.head?_append, show List.rdropWhile _ _ = strip digits from rfl, zero] at first
  cases first

theorem strip_getLast (digits : List (Fin 16)) : (strip digits).getLast? ≠ some 0 := by
  intro zero
  have nonempty : strip digits ≠ [] := by
    rintro empty
    rw [empty] at zero
    cases zero
  have last := List.rdropWhile_last_not (fun digit : Fin 16 => decide (digit = 0))
    (digits.dropWhile (· = 0)) nonempty
  rw [List.getLast?_eq_some_getLast nonempty, Option.some.injEq] at zero
  exact last (decide_eq_true zero)

/-- The double of a sign and the digits in front of the point and behind it, unless it has more
digits than a double. -/
def makeDouble (negative : Bool) (whole fraction : List (Fin 16)) : Option Double :=
  let digits := strip (whole ++ fraction)
  if short : digits.length ≤ doubleDigits then
    if nonzero : digits ≠ [] then
      some {
        negative
        digits
        exponent := whole.length - ((whole ++ fraction).takeWhile (· = 0)).length
        leading := strip_head _
        trailing := strip_getLast _
        zero := fun empty => absurd empty nonzero
        short }
    else
      some {
        negative := false
        digits := []
        exponent := 0
        leading := nofun
        trailing := nofun
        zero := fun _ => ⟨rfl, rfl⟩
        short := Nat.zero_le _ }
  else none

/-- `mpf_set_str(number, text, 16)`, which leaves zero where the text is no number, and
`mpf_neg` of a negative one. -/
def mpfSetStr (negative : Bool) (text : Bytes) : Option Double :=
  let (whole, fraction) := (parseHex text).getD ([], [])
  makeDouble negative whole fraction

/-- The text that `collect_double` prints into `hex[hex_len + 1]`, up to its first NUL.
`indicated` is the exponent that the record holds, `-1` where it holds none. -/
def doubleText (indicated : Int) (data : Bytes) : Option Bytes := do
  let isEven := decide (0x10 < data.headD 0)
  let hexLen := data.length * 2 + (indicated != -1).toNat
  let exp := if isEven then indicated else indicated + 1
  let hex ← printBytes (if exp = -1 then printPlain else printByte exp)
    (List.replicate (hexLen + 1) 0) 0 data
  let hex ← store hex hexLen [0]
  some (hex.takeWhile (· ≠ 0))

/-- `collect_double`. -/
def collectDouble (source : Source σ UInt8) : Collecting σ (Double × Nat) := do
  let two ← source.request 2
  match two with
  | [specifier, indicator] => do
      let negative := specifier &&& 0x80 != 0
      let byteCount := (specifier &&& 0x7f).toNat + 1
      let indicated : Int := if indicator &&& 0x80 != 0 then (indicator &&& 0x7f).toNat else -1
      let data ← source.request byteCount
      let text ← doubleText indicated data
      let number ← mpfSetStr negative text
      pure (number, 2 + byteCount)
  | _ => fun _ => none

end TellyDB.Database.Read
