import TellyDB.Database.Values
import TellyDB.Lib.Writers
import TellyDB.Resp.Doubles

/-!
Owns the elements of replies as they are written into a buffer: headers, strings, and the
values that are no collections, once by `write_value` and once by the tables and the switch
that the dumps of hash tables have of their own.
-/

namespace TellyDB.Resp

open Lib.Slices Lib.Writers Utils
open Database (Scalar Double)
open Server (ProtocolVersion)

/-- What GMP tells of a number: how many digits it may have, and the digits of a double. -/
structure Gmp where
  sizeInBase : Int → Nat
  estimate : ∀ value, sizeInBase value = digitCount value ∨ sizeInBase value = digitCount value + 1
  getStr : Double → DecimalDouble

/-! ## Writers -/

/-- The type of a reply, its count or its length by `ltoa`, and CRLF. -/
def writeHeader (type : String) (count : Nat) : Writer UInt8 :=
  andThen (constant (text type)) (andThen (ltoa count) (constant crlf))

/-- `create_resp_string` on its buffer. -/
def writeRespString (string : Bytes) : Writer UInt8 :=
  andThen (writeHeader "$" string.length) (andThen (constant string) (constant crlf))

/-- `c_null`. -/
def cNull : ProtocolVersion → Bytes
  | .resp2 => text "$-1" ++ crlf
  | .resp3 => text "_" ++ crlf

/-- `c_bool`. -/
def cBool : ProtocolVersion → Bool → Bytes
  | .resp2, false => respOkMessage "false"
  | .resp2, true => respOkMessage "true"
  | .resp3, false => text "#f" ++ crlf
  | .resp3, true => text "#t" ++ crlf

/-- `RESP_NULL(protover)`. -/
def respNull : ProtocolVersion → Bytes
  | .resp2 => text "$-1" ++ crlf
  | .resp3 => text "_" ++ crlf

section Values

variable (gmp : Gmp) (protover : ProtocolVersion)

/-- The switch of both `dump_hashtable`: a value of a type it does not name is left out. -/
def dumpValue : Scalar → Writer UInt8
  | .null => constant (cNull protover)
  | .int number => fun buf =>
      createRespIntegerMpz protover (gmp.sizeInBase number) buf number
  | .double number => fun buf => createRespIntegerMpf protover buf (gmp.getStr number)
  | .str string => writeRespString string
  | .bool boolean => constant (cBool protover boolean)
  | .unknown => constant []

/-- What a writer counts in a buffer. -/
def written (write : Writer UInt8) (buf : Bytes) : Option Bytes := do
  let (nbytes, buf) ← write buf
  some (buf.take nbytes)

/-- `write_value` of a value that is no collection; of `TELLY_UNKNOWN` it is not reached. -/
def writeValue (value : Scalar) (buf : Bytes) : Option Bytes :=
  match value with
  | .unknown => none
  | .null => some (respNull protover)
  | .int number =>
      written (fun buf => createRespIntegerMpz protover (gmp.sizeInBase number) buf number) buf
  | .double number =>
      written (fun buf => createRespIntegerMpf protover buf (gmp.getStr number)) buf
  | .str string => written (writeRespString string) buf
  | .bool boolean =>
      match protover with
      | .resp2 => some (if boolean then respOkMessage "true" else respOkMessage "false")
      | .resp3 => some (if boolean then text "#t" ++ crlf else text "#f" ++ crlf)

end Values

/-! ## Elements -/

/-- One element of a reply that has no elements of its own. -/
inductive IsElement (protover : ProtocolVersion) : Bytes → Prop where
  | simple (line : Bytes) (single : 0x0d ∉ line ∧ 0x0a ∉ line) :
      IsElement protover (text "+" ++ line ++ crlf)
  | integer (value : Int) : IsElement protover (text ":" ++ numeral value ++ crlf)
  | bulk (string : Bytes) : IsElement protover (createRespString string)
  | absent (two : protover = .resp2) : IsElement protover (text "$-1" ++ crlf)
  | null (three : protover = .resp3) : IsElement protover (text "_" ++ crlf)
  | boolean (letter : UInt8) (isLetter : letter = 0x74 ∨ letter = 0x66)
      (three : protover = .resp3) : IsElement protover (text "#" ++ [letter] ++ crlf)

/-- Strings, booleans, nulls and integers that fit a signed word. -/
def Listable : Scalar → Prop
  | .null | .str _ | .bool _ => True
  | .int number => fitsSlong number
  | .double _ | .unknown => False

instance : DecidablePred Listable
  | .null => isTrue trivial
  | .str _ => isTrue trivial
  | .bool _ => isTrue trivial
  | .int number => inferInstanceAs (Decidable (fitsSlong number))
  | .double _ => isFalse id
  | .unknown => isFalse id

/-- The element such a value is. -/
def scalarText (protover : ProtocolVersion) : Scalar → Bytes
  | .null => cNull protover
  | .int number => text ":" ++ numeral number ++ crlf
  | .str string => createRespString string
  | .bool boolean => cBool protover boolean
  | .double _ | .unknown => []

theorem isElement_scalarText {protover : ProtocolVersion} {value : Scalar}
    (listable : Listable value) : IsElement protover (scalarText protover value) := by
  cases value with
  | unknown => cases listable
  | double number => cases listable
  | int number => exact .integer number
  | str string => exact .bulk string
  | null =>
      cases protover with
      | resp2 => exact .absent rfl
      | resp3 => exact .null rfl
  | bool boolean =>
      cases protover with
      | resp3 =>
          cases boolean with
          | false => exact .boolean 0x66 (.inr rfl) rfl
          | true => exact .boolean 0x74 (.inl rfl) rfl
      | resp2 =>
          cases boolean with
          | false => exact .simple (text "false") (by decide)
          | true => exact .simple (text "true") (by decide)

/-! ## What the writers count -/

section Writes

variable {limit : Nat} {protover : ProtocolVersion}

theorem numeral_natCast (count : Nat) : numeral count = decimal count :=
  if_neg (Int.not_lt.mpr (Int.natCast_nonneg _))

/-- `ltoa` writes a NUL behind the digits. -/
theorem writes_ltoa {count : Nat} (small : count < 2 ^ 63) :
    Writes limit 1 (ltoa count) (decimal count) := by
  intro buf room _
  have space : (numeral count).length < buf.length := by
    rw [numeral_natCast]
    omega
  refine ⟨0 :: buf.drop ((decimal count).length + 1), ?_, ?_⟩
  · rw [ltoa_eq (by omega) (by omega) space, numeral_natCast]
  · rw [List.length_cons, List.length_drop]
    omega

theorem writes_header (type : String) {count : Nat} (small : count < 2 ^ 63) :
    Writes limit 0 (writeHeader type count) (text type ++ (decimal count ++ crlf)) := by
  have behind := (writes_ltoa small : Writes limit 1 _ _).andThen (writes_constant crlf)
    (show 1 ≤ crlf.length + 0 by decide)
  exact (writes_constant (text type)).andThen behind (Nat.zero_le _)

theorem writes_respString (string : Bytes) (bounded : limit < 2 ^ 63) :
    Writes limit 0 (writeRespString string) (createRespString string) := by
  intro buf room small
  have length := length_createRespString string
  have header : Writes limit 0 _ _ := writes_header "$" (show string.length < 2 ^ 63 by omega)
  have whole := header.andThen ((writes_constant string).andThen (writes_constant crlf)
    (Nat.zero_le _)) (Nat.zero_le _)
  have same : text "$" ++ (decimal string.length ++ crlf) ++ (string ++ crlf) =
      createRespString string := by
    simp only [createRespString, List.append_assoc]
  rw [same] at whole
  exact whole buf room small

theorem writes_integer (gmp : Gmp) {number : Int} (fits : fitsSlong number) :
    Writes limit 0
      (fun buf => createRespIntegerMpz protover (gmp.sizeInBase number) buf number)
      (text ":" ++ numeral number ++ crlf) := by
  intro buf room _
  have length : (text ":" ++ numeral number ++ crlf).length = (numeral number).length + 3 := by
    simp [text, crlf]
  rw [length] at room ⊢
  have one : (text ":").length = 1 := by decide
  have typed : put buf 0 (text ":") = some (0x3a :: buf.drop 1) := put_zero (by omega)
  have space : (numeral number).length + 2 ≤ (buf.drop 1).length := by
    rw [List.length_drop]
    omega
  refine ⟨(buf.drop 1).drop ((numeral number).length + 2), ?_, ?_⟩
  · show createRespIntegerMpz protover (gmp.sizeInBase number) buf number = _
    unfold createRespIntegerMpz
    rw [if_pos fits, typed, Option.bind_eq_bind, Option.bind_some,
      decimalTail_eq (gmp.estimate number) space]
    rfl
  · rw [List.length_drop, List.length_drop]
    omega

/-- The dumps write the element of a value. -/
theorem writes_dumpValue (gmp : Gmp) {value : Scalar} (listable : Listable value)
    (bounded : limit < 2 ^ 63) :
    Writes limit 0 (dumpValue gmp protover value) (scalarText protover value) := by
  cases value with
  | unknown => cases listable
  | double number => cases listable
  | null => exact writes_constant _
  | int number => exact writes_integer gmp listable
  | str string => exact writes_respString string bounded
  | bool boolean => exact writes_constant _

theorem written_eq {write : Writer UInt8} {part buf : Bytes} (writes : Writes limit 0 write part)
    (room : part.length ≤ buf.length) (small : buf.length ≤ limit) :
    written write buf = some part := by
  rcases writes buf room small with ⟨rest, returned, _⟩
  rw [written, returned, Option.bind_eq_bind, Option.bind_some]
  exact congrArg some List.take_left

/-- `write_value` returns the same element. -/
theorem writeValue_eq (gmp : Gmp) {value : Scalar} {buf : Bytes} (listable : Listable value)
    (bounded : limit < 2 ^ 63) (room : (scalarText protover value).length ≤ buf.length)
    (small : buf.length ≤ limit) :
    writeValue gmp protover value buf = some (scalarText protover value) := by
  cases value with
  | unknown => cases listable
  | double number => cases listable
  | null => cases protover <;> rfl
  | int number => exact written_eq (writes_integer gmp listable) room small
  | str string => exact written_eq (writes_respString string bounded) room small
  | bool boolean => cases protover <;> cases boolean <;> rfl

end Writes

/-! ## Within the buffer -/

section Counts

variable {protover : ProtocolVersion}

theorem length_ltoaDigits {dst after : Bytes} {uval pos : Nat}
    (written : ltoaDigits dst uval pos = some after) : after.length = dst.length := by
  fun_induction ltoaDigits dst uval pos with
  | case1 dst uval pos several inductionHypothesis =>
      obtain ⟨placed, put, written⟩ := Option.bind_eq_some_iff.mp written
      exact (inductionHypothesis placed written).trans (put_inside put).2.2
  | case2 => exact (put_inside written).2.2
  | case3 => exact (put_inside written).2.2
  | case4 =>
      cases written
      rfl

theorem counts_ltoa (value : Int) : Counts (ltoa value) := by
  intro buf count after written
  rw [ltoa] at written
  dsimp only at written
  generalize getDigitCount _ + _ = total at written
  obtain ⟨ended, put, written⟩ := Option.bind_eq_some_iff.mp written
  obtain ⟨digits, wrote, written⟩ := Option.bind_eq_some_iff.mp written
  obtain ⟨_, room, ended_length⟩ := put_inside put
  have digits_length := length_ltoaDigits wrote
  rw [List.length_singleton] at room
  split at written
  · obtain ⟨signed, sign, written⟩ := Option.bind_eq_some_iff.mp written
    cases written
    have signed_length := (put_inside sign).2.2
    omega
  · cases written
    omega

theorem counts_header (type : String) (count : Nat) : Counts (writeHeader type count) :=
  (counts_constant _).andThen ((counts_ltoa _).andThen (counts_constant _))

theorem counts_respString (string : Bytes) : Counts (writeRespString string) :=
  (counts_header "$" _).andThen ((counts_constant _).andThen (counts_constant _))

theorem length_crlf : crlf.length = 2 := rfl

/-- The CRLF is the last that is written and counted. -/
theorem counts_decimalTail {sizeInBase count : Nat} {buf after : Bytes} {value : Int}
    (written : decimalTail sizeInBase buf value = some (count, after)) :
    count ≤ after.length := by
  obtain ⟨_, _, written⟩ := Option.bind_eq_some_iff.mp written
  obtain ⟨_, _, written⟩ := Option.bind_eq_some_iff.mp written
  obtain ⟨_, put, written⟩ := Option.bind_eq_some_iff.mp written
  cases written
  obtain ⟨_, room, length⟩ := put_inside put
  rw [length_crlf] at room
  omega

theorem counts_bulkDecimal {sizeInBase count : Nat} {buf after : Bytes} {value : Int}
    (written : bulkDecimal sizeInBase buf value = some (count, after)) :
    count ≤ after.length := by
  obtain ⟨byte, _, written⟩ := Option.bind_eq_some_iff.mp written
  generalize (if byte = 0 then _ else estimatedSize sizeInBase value) = length at written
  obtain ⟨⟨_, _⟩, _, written⟩ := Option.bind_eq_some_iff.mp written
  obtain ⟨_, _, written⟩ := Option.bind_eq_some_iff.mp written
  obtain ⟨_, _, written⟩ := Option.bind_eq_some_iff.mp written
  obtain ⟨_, _, written⟩ := Option.bind_eq_some_iff.mp written
  dsimp only at written
  split at written
  · obtain ⟨_, _, written⟩ := Option.bind_eq_some_iff.mp written
    obtain ⟨_, put, written⟩ := Option.bind_eq_some_iff.mp written
    cases written
    obtain ⟨_, room, same⟩ := put_inside put
    rw [length_crlf] at room
    omega
  · cases written

theorem counts_integer (sizeInBase : Nat) (value : Int) :
    Counts fun buf => createRespIntegerMpz protover sizeInBase buf value := by
  intro buf count after written
  unfold createRespIntegerMpz at written
  split at written
  · obtain ⟨_, _, written⟩ := Option.bind_eq_some_iff.mp written
    exact counts_decimalTail written
  · cases protover with
    | resp2 => exact counts_bulkDecimal written
    | resp3 =>
        obtain ⟨_, _, written⟩ := Option.bind_eq_some_iff.mp written
        exact counts_decimalTail written

theorem counts_double (double : DecimalDouble) :
    Counts fun buf => createRespIntegerMpf protover buf double := by
  intro buf count after written
  dsimp only at written
  rw [createRespIntegerMpf] at written
  split at written
  · obtain ⟨_, put, written⟩ := Option.bind_eq_some_iff.mp written
    cases written
    obtain ⟨_, room, length⟩ := put_inside put
    have four : (text ":" ++ text "0" ++ crlf).length = 4 := by decide
    rw [four] at room
    omega
  · obtain ⟨⟨_, _⟩, _, written⟩ := Option.bind_eq_some_iff.mp written
    obtain ⟨⟨_, _⟩, _, written⟩ := Option.bind_eq_some_iff.mp written
    obtain ⟨_, put, written⟩ := Option.bind_eq_some_iff.mp written
    cases written
    obtain ⟨_, room, length⟩ := put_inside put
    rw [length_crlf] at room
    omega

end Counts

end TellyDB.Resp
