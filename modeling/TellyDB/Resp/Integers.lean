import TellyDB.Server.State
import TellyDB.Utils.Ltoa
import TellyDB.Resp.Frames
import Mathlib.Algebra.Order.Ring.Int

/-!
Owns the replies that `create_resp_integer_mpz` makes of integers of any size: which bytes it
counts, and for which estimates of `mpz_sizeinbase` they are a reply.

`none` is an access outside of a buffer.
-/

namespace TellyDB.Resp

open Lib.Slices Utils
open Server (ProtocolVersion)

/-- `mpz_fits_slong_p`. -/
def fitsSlong (value : Int) : Prop := -2 ^ 63 ≤ value ∧ value < 2 ^ 63

instance (value : Int) : Decidable (fitsSlong value) := inferInstanceAs (Decidable (_ ∧ _))

/-- The estimated length of the text, sign included. -/
def estimatedSize (sizeInBase : Nat) (value : Int) : Nat :=
  sizeInBase + if value < 0 then 1 else 0

/-- What `create_resp_integer_mpz` does behind the type: the text, its length by a look at the
estimated end, and the CRLF. -/
def decimalTail (sizeInBase : Nat) (buf : Bytes) (value : Int) : Option (Nat × Bytes) := do
  let buf ← put buf 1 (numeral value ++ [0])
  let size := estimatedSize sizeInBase value
  let byte ← buf[size]?
  let nbytes := 1 + if byte = 0 then size - 1 else size
  let buf ← put buf nbytes crlf
  some (nbytes + 2, buf)

/-- What it does under RESP2 with a number that is no `long`. -/
def bulkDecimal (sizeInBase : Nat) (buf : Bytes) (value : Int) : Option (Nat × Bytes) := do
  let str := numeral value ++ [0]
  let size := estimatedSize sizeInBase value
  let byte ← str[size - 2]?
  let length := if byte = 0 then size - 1 else size
  let (digitLen, digits) ← ltoa length (List.replicate 4 0)
  let buf ← put buf 0 (text "$")
  let buf ← put buf 1 (digits.take digitLen)
  let nbytes := 1 + digitLen
  let buf ← put buf nbytes crlf
  let nbytes := nbytes + 2
  let buf ← if length ≤ str.length then put buf nbytes (str.take length) else none
  let nbytes := nbytes + length
  let buf ← put buf nbytes crlf
  some (nbytes + 2, buf)

/-- `create_resp_integer_mpz`, with the estimate of `mpz_sizeinbase(value, 10)`: how many bytes it
counts, and the buffer. -/
def createRespIntegerMpz (protover : ProtocolVersion) (sizeInBase : Nat) (buf : Bytes)
    (value : Int) : Option (Nat × Bytes) :=
  if fitsSlong value then do
    let buf ← put buf 0 (text ":")
    decimalTail sizeInBase buf value
  else
    match protover with
    | .resp2 => bulkDecimal sizeInBase buf value
    | .resp3 => do
        let buf ← put buf 0 (text "(")
        decimalTail sizeInBase buf value

/-- One element whose payload is the canonical text of the number. -/
def IsIntegerReply (protover : ProtocolVersion) (value : Int) (reply : Bytes) : Prop :=
  reply = text ":" ++ numeral value ++ crlf ∨
    protover = .resp3 ∧ reply = text "(" ++ numeral value ++ crlf ∨
    reply = createRespString (numeral value)

/-- The bytes that are counted are one reply with the number. -/
def FramesInteger (protover : ProtocolVersion) (sizeInBase : Nat) (buf : Bytes) (value : Int) :
    Prop :=
  ∃ nbytes after, createRespIntegerMpz protover sizeInBase buf value = some (nbytes, after) ∧
    IsIntegerReply protover value (after.take nbytes)

/-- How many digits a number has. -/
def digitCount (value : Int) : Nat := (decimal value.natAbs).length

/-! ## The text of a number -/

theorem length_numeral (value : Int) :
    (numeral value).length = estimatedSize (digitCount value) value := by
  rw [numeral, estimatedSize, digitCount]
  split <;> rfl

theorem numeral_ne_nil (value : Int) : numeral value ≠ [] := by
  rw [numeral]
  split
  · exact List.cons_ne_nil _ _
  · exact decimal_ne_nil _

/-- There is no NUL in the text. -/
theorem numeral_ne_zero {value : Int} {byte : UInt8} (member : byte ∈ numeral value) :
    byte ≠ 0 := by
  have digits : ∀ byte ∈ decimal value.natAbs, byte ≠ 0 := by
    rintro _ member rfl
    exact absurd (decimal_digits _ 0 member) (by decide)
  rw [numeral] at member
  split at member
  · rcases List.mem_cons.mp member with rfl | member
    · decide
    · exact digits byte member
  · exact digits byte member

/-- A number below ten to the 309 has a text of at most 310 bytes. -/
theorem length_numeral_le {value : Int} (bounded : value.natAbs < 2 ^ 1024) :
    (numeral value).length ≤ 310 := by
  have power : 2 ^ 1024 < 10 ^ 309 := by decide +kernel
  have digits : (decimal value.natAbs).length ≤ 309 :=
    (length_decimal_le_iff (by decide)).mpr (Nat.lt_trans bounded power)
  rw [numeral]
  split
  · rw [List.length_cons]
    omega
  · omega

/-! ## Behind the type -/

section Tail

variable {value : Int} {sizeInBase : Nat} {type : UInt8} {rest : Bytes}

/-- The byte at the estimated end tells the two estimates apart, as the text starts behind the
type. -/
theorem estimated_end {typed after : Bytes} (estimate : sizeInBase = digitCount value ∨
      sizeInBase = digitCount value + 1) (single : typed.length = 1)
    (front : after.take (1 + ((numeral value).length + 1)) = typed ++ (numeral value ++ [0])) :
    ∃ byte, after[estimatedSize sizeInBase value]? = some byte ∧
      (if byte = 0 then estimatedSize sizeInBase value - 1 else estimatedSize sizeInBase value) =
        (numeral value).length := by
  have length := length_numeral value
  have positive := List.length_pos_of_ne_nil (numeral_ne_nil value)
  have size : estimatedSize sizeInBase value = (numeral value).length ∨
      estimatedSize sizeInBase value = (numeral value).length + 1 := by
    rw [length, estimatedSize, estimatedSize]
    omega
  have read : after[estimatedSize sizeInBase value]? =
      (numeral value ++ [0])[estimatedSize sizeInBase value - 1]? := by
    rw [← List.getElem?_take_of_lt (show _ < 1 + ((numeral value).length + 1) by omega), front,
      List.getElem?_append_right (by omega), single]
  rw [read]
  rcases size with exact_ | more
  · have inside : (numeral value).length - 1 < (numeral value).length := by omega
    rw [exact_, List.getElem?_append_left inside, List.getElem?_eq_getElem inside]
    exact ⟨_, rfl, if_neg (numeral_ne_zero (List.getElem_mem inside))⟩
  · rw [more, Nat.add_sub_cancel, List.getElem?_append_right (Nat.le_refl _), Nat.sub_self]
    exact ⟨0, rfl, if_pos rfl⟩

/-- The text, and the CRLF behind it. -/
theorem decimalTail_eq (estimate : sizeInBase = digitCount value ∨
      sizeInBase = digitCount value + 1)
    (room : (numeral value).length + 2 ≤ rest.length) :
    decimalTail sizeInBase (type :: rest) value = some ((numeral value).length + 3,
      type :: numeral value ++ crlf ++ rest.drop ((numeral value).length + 2)) := by
  have written : put (type :: rest) 1 (numeral value ++ [0]) =
      some ([type] ++ (numeral value ++ [0]) ++ rest.drop ((numeral value).length + 1)) := by
    have room : (numeral value ++ [0]).length ≤ rest.length := by
      rw [List.length_append, List.length_singleton]
      omega
    have behind := put_append [type] rfl room
    simpa using behind
  have front : ([type] ++ (numeral value ++ [0]) ++ rest.drop ((numeral value).length + 1)).take
      (1 + ((numeral value).length + 1)) = [type] ++ (numeral value ++ [0]) := by
    apply List.take_left'
    simp [Nat.add_comm]
  obtain ⟨byte, read, nbytes⟩ := estimated_end estimate rfl front
  have framed : put ([type] ++ (numeral value ++ [0]) ++ rest.drop ((numeral value).length + 1))
      (1 + (numeral value).length : Nat) crlf =
        some (type :: numeral value ++ crlf ++ rest.drop ((numeral value).length + 2)) := by
    have split : [type] ++ (numeral value ++ [0]) ++ rest.drop ((numeral value).length + 1) =
        (type :: numeral value) ++ (0 :: rest.drop ((numeral value).length + 1)) := by simp
    rw [split, put_append]
    · simp [crlf, List.drop_drop]
    · simp [Nat.add_comm]
    · simp [crlf]
      omega
  simp only [decimalTail, written, read, nbytes, framed, Option.bind_eq_bind, Option.bind_some]
  congr 2
  omega

end Tail

/-! ## Bulk strings -/

section Bulk

variable {value : Int} {sizeInBase : Nat}

/-- A length of at most three digits and its NUL fill four bytes. -/
theorem ltoa_header {length : Nat} (small : length < 1000) :
    ∃ header, ltoa length (List.replicate 4 0) = some ((decimal length).length, header) ∧
      header.take (decimal length).length = decimal length := by
  have few : (decimal length).length ≤ 3 := (length_decimal_le_iff (by decide)).mpr small
  have numeral_eq : numeral (length : Int) = decimal length :=
    if_neg (Int.not_lt.mpr (Int.natCast_nonneg _))
  have room : (numeral length).length < (List.replicate 4 (0 : UInt8)).length := by
    rw [numeral_eq, List.length_replicate]
    omega
  have written := ltoa_eq (by omega) (by omega) room
  rw [numeral_eq] at written
  exact ⟨_, written, List.take_left⟩

/-- A longer one leaves them. -/
theorem ltoa_header_long {length : Nat} (long : 1000 ≤ length) (fits : length < 2 ^ 63) :
    ltoa length (List.replicate 4 0) = none := by
  have many : ¬(decimal length).length ≤ 3 :=
    (length_decimal_le_iff (by decide)).not.mpr (Nat.not_lt.mpr long)
  have count : getDigitCount length = (decimal length).length := getDigitCount_eq (by omega)
  have positive : ¬(length : Int) < 0 := Int.not_lt.mpr (Int.natCast_nonneg _)
  have outside : put (List.replicate 4 (0 : UInt8)) (decimal length).length [0] = none := by
    rw [put, if_neg]
    rw [List.length_replicate, List.length_singleton]
    omega
  simp only [ltoa, positive, decide_false, Bool.false_eq_true, if_false, Int.toNat_natCast, count,
    Bool.toNat_false, Nat.add_zero, outside, Option.bind_eq_bind, Option.bind_none]

/-- The writes of a bulk string one after the other. -/
theorem put_bulk {buf payload : Bytes} {length : Nat} (counted : payload.length = length)
    (room : 1 + (decimal length).length + 2 + length + 2 ≤ buf.length) :
    ∃ typed counting headed filled framed, put buf 0 (text "$") = some typed ∧
      put typed 1 (decimal length) = some counting ∧
      put counting (1 + (decimal length).length : Nat) crlf = some headed ∧
      put headed (1 + (decimal length).length + 2 : Nat) payload = some filled ∧
      put filled (1 + (decimal length).length + 2 + length : Nat) crlf = some framed ∧
      framed.take (1 + (decimal length).length + 2 + length + 2) =
        text "$" ++ decimal length ++ crlf ++ payload ++ crlf := by
  have ends : crlf.length = 2 := rfl
  have one : (text "$").length = 1 := rfl
  obtain ⟨typed, typing, typedLength, typedFront⟩ := put_take buf (text "$") 0 0 rfl (by omega)
  obtain ⟨counting, putCount, countingLength, countingFront⟩ := put_take typed
    (decimal length) 1 1 rfl (by omega)
  obtain ⟨headed, putHead, headedLength, headedFront⟩ := put_take counting crlf
    (1 + (decimal length).length : Nat) _ rfl (by omega)
  obtain ⟨filled, putPayload, filledLength, filledFront⟩ := put_take headed payload
    (1 + (decimal length).length + 2 : Nat) _ rfl (by omega)
  obtain ⟨framed, putEnd, framedLength, framedFront⟩ := put_take filled crlf
    (1 + (decimal length).length + 2 + length : Nat) _ rfl (by omega)
  refine ⟨typed, counting, headed, filled, framed, typing, putCount, putHead, putPayload, putEnd,
    ?_⟩
  rw [counted] at filledFront
  rw [ends] at headedFront framedFront
  rw [one, Nat.zero_add] at typedFront
  rw [framedFront, filledFront, headedFront, countingFront, typedFront]
  rfl

/-- The header and the payload, as long as the estimate says. -/
theorem bulkDecimal_eq {length : Nat} {byte : UInt8} (buf : Bytes)
    (read : (numeral value ++ [0])[estimatedSize sizeInBase value - 2]? = some byte)
    (counted : (if byte = 0 then estimatedSize sizeInBase value - 1
      else estimatedSize sizeInBase value) = length)
    (small : length < 1000) (inside : length ≤ (numeral value ++ [0]).length)
    (room : length + 8 ≤ buf.length) :
    ∃ nbytes after, bulkDecimal sizeInBase buf value = some (nbytes, after) ∧
      after.take nbytes = text "$" ++ decimal length ++ crlf ++
        (numeral value ++ [0]).take length ++ crlf := by
  have few : (decimal length).length ≤ 3 := (length_decimal_le_iff (by decide)).mpr small
  have payload : ((numeral value ++ [0]).take length).length = length := by
    rw [List.length_take]
    omega
  obtain ⟨header, written, digits⟩ := ltoa_header small
  obtain ⟨typed, counting, headed, filled, framed, typing, putCount, putHead, putPayload, putEnd,
    front⟩ := put_bulk payload (show _ ≤ buf.length by omega)
  refine ⟨1 + (decimal length).length + 2 + length + 2, framed, ?_, front⟩
  simp only [bulkDecimal, read, counted, written, typing, digits, putCount, putHead,
    if_pos inside, putPayload, putEnd, Option.bind_eq_bind, Option.bind_some]

/-- A look one byte too far to the front finds a digit, whatever the estimate. -/
theorem estimated_byte (large : ¬fitsSlong value)
    (estimate : sizeInBase = digitCount value ∨ sizeInBase = digitCount value + 1) :
    ∃ byte, (numeral value ++ [0])[estimatedSize sizeInBase value - 2]? = some byte ∧ byte ≠ 0 := by
  have length := length_numeral value
  have digits : 2 ≤ digitCount value := by
    rw [digitCount]
    by_contra few
    have small := (length_decimal_le_iff Nat.one_pos).mp (Nat.le_of_lt_succ (Nat.not_le.mp few))
    apply large
    constructor <;> omega
  have inside : estimatedSize sizeInBase value - 2 < (numeral value).length := by
    rw [length, estimatedSize, estimatedSize]
    omega
  refine ⟨(numeral value)[estimatedSize sizeInBase value - 2], ?_,
    numeral_ne_zero (List.getElem_mem inside)⟩
  rw [List.getElem?_append_left inside, List.getElem?_eq_getElem inside]

end Bulk

/-! ## When the reply is framed -/

section Frames

variable {protover : ProtocolVersion} {value : Int} {sizeInBase : Nat} {buf : Bytes}

/-- Behind a type the text and the CRLF are counted exactly. -/
theorem typed_reply (buf : Bytes) (type : String) (estimate : sizeInBase = digitCount value ∨
      sizeInBase = digitCount value + 1) (single : (text type).length = 1)
    (room : (numeral value).length + 3 ≤ buf.length) :
    ∃ nbytes after, (do
      let buf ← put buf 0 (text type)
      decimalTail sizeInBase buf value) = some (nbytes, after) ∧
        after.take nbytes = text type ++ numeral value ++ crlf := by
  have inside : (text type).length ≤ buf.length := by omega
  obtain ⟨byte, same⟩ := List.length_eq_one_iff.mp single
  have rest : (numeral value).length + 2 ≤ (buf.drop 1).length := by
    rw [List.length_drop]
    omega
  rw [put_zero inside, same]
  refine ⟨_, _, decimalTail_eq estimate rest, ?_⟩
  apply List.take_left'
  simp [crlf]

/-- A bulk string one byte longer than the text is no reply with the number. -/
theorem not_isIntegerReply_longer :
    ¬IsIntegerReply protover value (text "$" ++ decimal ((numeral value).length + 1) ++ crlf ++
      (numeral value ++ [0]) ++ crlf) := by
  rintro (same | ⟨_, same⟩ | same)
  · cases (List.cons.inj same).1
  · cases (List.cons.inj same).1
  · have literal : ∀ number, IsLiteral (decimal number) := fun number =>
      ⟨decimal_ne_nil number, decimal_digits number⟩
    have shape : ∀ number rest, text "$" ++ decimal number ++ crlf ++ rest =
        0x24 :: (decimal number ++ 0x0d :: 0x0a :: rest) := by
      intro number rest
      simp only [crlf, List.append_assoc, List.cons_append, List.nil_append]
      rfl
    rw [createRespString, shape, shape, List.cons_append, List.cons_append, List.append_assoc,
      List.append_assoc] at same
    have rests := ((literal _).ends (literal _) (List.cons.inj same).2).2
    have lengths := congrArg List.length rests
    simp [crlf] at lengths

/-- A bulk string has the length that was estimated. -/
theorem bulk_reply (large : ¬fitsSlong value) (bounded : value.natAbs < 2 ^ 1024)
    (estimate : sizeInBase = digitCount value ∨ sizeInBase = digitCount value + 1)
    (room : 320 ≤ buf.length) :
    ∃ nbytes after, createRespIntegerMpz .resp2 sizeInBase buf value = some (nbytes, after) ∧
      after.take nbytes = text "$" ++ decimal (estimatedSize sizeInBase value) ++ crlf ++
        (numeral value ++ [0]).take (estimatedSize sizeInBase value) ++ crlf := by
  have length := length_numeral_le bounded
  obtain ⟨byte, read, some⟩ := estimated_byte large estimate
  have inside : estimatedSize sizeInBase value ≤ (numeral value).length + 1 := by
    rw [length_numeral, estimatedSize, estimatedSize]
    omega
  unfold createRespIntegerMpz
  rw [if_neg large]
  apply bulkDecimal_eq buf read (if_neg some)
  · omega
  · rw [List.length_append]
    exact inside
  · omega

/-- One byte too many is a NUL behind the text. -/
theorem not_framesInteger_longer (large : ¬fitsSlong value) (bounded : value.natAbs < 2 ^ 1024)
    (room : 320 ≤ buf.length) : ¬FramesInteger .resp2 (digitCount value + 1) buf value := by
  obtain ⟨nbytes, after, made, front⟩ := bulk_reply large bounded (.inr rfl) room
  have longer : estimatedSize (digitCount value + 1) value = (numeral value).length + 1 := by
    rw [length_numeral, estimatedSize, estimatedSize]
    omega
  have whole : (numeral value ++ [0]).take ((numeral value).length + 1) =
      numeral value ++ [0] := List.take_of_length_le (by simp)
  rw [longer, whole] at front
  rintro ⟨_, _, again, reply⟩
  rw [made] at again
  cases again
  rw [front] at reply
  exact not_isIntegerReply_longer reply

/-- The bytes are a reply with the number exactly when the number is a `long`, or under RESP3, or
when the estimate of the number of digits is exact. -/
theorem framesInteger_iff (protover : ProtocolVersion) (bounded : value.natAbs < 2 ^ 1024)
    (estimate : sizeInBase = digitCount value ∨ sizeInBase = digitCount value + 1)
    (room : 320 ≤ buf.length) :
    FramesInteger protover sizeInBase buf value ↔
      fitsSlong value ∨ protover = .resp3 ∨ sizeInBase = digitCount value := by
  have length := length_numeral_le bounded
  by_cases fits : fitsSlong value
  · obtain ⟨nbytes, after, made, front⟩ := typed_reply buf ":" estimate rfl (by omega)
    apply iff_of_true _ (.inl fits)
    refine ⟨nbytes, after, ?_, .inl front⟩
    unfold createRespIntegerMpz
    rw [if_pos fits]
    exact made
  cases protover with
  | resp3 =>
      obtain ⟨nbytes, after, made, front⟩ := typed_reply buf "(" estimate rfl (by omega)
      apply iff_of_true _ (.inr (.inl rfl))
      refine ⟨nbytes, after, ?_, .inr (.inl ⟨rfl, front⟩)⟩
      unfold createRespIntegerMpz
      rw [if_neg fits]
      exact made
  | resp2 =>
      rcases estimate with rfl | rfl
      · obtain ⟨nbytes, after, made, front⟩ := bulk_reply fits bounded (.inl rfl) room
        rw [← length_numeral, List.take_left] at front
        exact iff_of_true ⟨nbytes, after, made, .inr (.inr front)⟩ (.inr (.inr rfl))
      · apply iff_of_false (not_framesInteger_longer fits bounded room)
        rintro (within | same | exact)
        · exact fits within
        · cases same
        · omega

theorem framesInteger_iff_of_two_pow :
    FramesInteger .resp2 20 (List.replicate 320 0) (2 ^ 63) ↔
      fitsSlong (2 ^ 63) ∨ ProtocolVersion.resp2 = .resp3 ∨ 20 = digitCount (2 ^ 63) :=
  framesInteger_iff .resp2 (by decide +kernel) (.inr (by decide +kernel))
    (Nat.le_of_eq List.length_replicate.symm)

/-- The least number that is no `long` has 19 digits, and the estimate for it is 20. -/
theorem not_framesInteger_two_pow :
    ¬FramesInteger .resp2 20 (List.replicate 320 0) (2 ^ 63) := by
  have digits : digitCount (2 ^ 63) + 1 = 20 := by decide +kernel
  rw [← digits]
  exact not_framesInteger_longer (by decide +kernel) (by decide +kernel)
    (Nat.le_of_eq List.length_replicate.symm)

end Frames

end TellyDB.Resp
