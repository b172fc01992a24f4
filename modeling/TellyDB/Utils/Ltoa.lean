import TellyDB.Lib.Slices
import TellyDB.Resp.Parsing
import Mathlib.Algebra.Order.Ring.Nat

/-!
Owns how `utils/number.c` writes a number: how many digits it has, and `ltoa`, which fills its
target from the end with two digits at a time.

`none` is a write behind the target.
-/

namespace TellyDB.Utils

open Resp Lib.Slices

/-- `get_digit_count`: the digits are estimated from the bits, with `308 / 1024` for the logarithm
of two, and `POW10_TABLE` tells whether there is one more. -/
def getDigitCount (value : Nat) : Nat :=
  if value = 0 then 1
  else
    let bits := value.log2 + 1
    let approximateDigits := bits * 308 / 1024
    approximateDigits + if 10 ^ approximateDigits ≤ value then 1 else 0

/-- An entry of `TWO_DIGITS_TABLE`. -/
def twoDigits (remainder : Nat) : Bytes := [digitByte (remainder / 10), digitByte (remainder % 10)]

/-- The loop of `ltoa`, and the one or two digits it leaves. -/
def ltoaDigits (dst : Bytes) (uval pos : Nat) : Option Bytes :=
  if 100 ≤ uval then do
    let dst ← put dst (pos - 2 : Nat) (twoDigits (uval % 100))
    ltoaDigits dst (uval / 100) (pos - 2)
  else if pos ≠ 0 then
    if 10 ≤ uval then put dst (pos - 2 : Nat) (twoDigits uval)
    else put dst (pos - 1 : Nat) [digitByte uval]
  else some dst
termination_by uval

/-- `ltoa`: what it returns, and the target. -/
def ltoa (value : Int) (dst : Bytes) : Option (Nat × Bytes) := do
  let neg := decide (value < 0)
  let uval := if neg then (-(value + 1) + 1).toNat else value.toNat
  let totalLen := getDigitCount uval + neg.toNat
  let dst ← put dst totalLen [0]
  let dst ← ltoaDigits dst uval totalLen
  let dst ← if neg then put dst 0 [0x2d] else some dst
  some (totalLen, dst)

/-- The canonical text of a number. -/
def numeral (value : Int) : Bytes :=
  if value < 0 then 0x2d :: decimal value.natAbs else decimal value.natAbs

/-! ## How many digits there are -/

theorem length_decimal_le_iff {value count : Nat} (some : 0 < count) :
    (decimal value).length ≤ count ↔ value < 10 ^ count := by
  rw [decimal, List.length_map]
  exact Nat.length_toDigits_le_iff (by decide) some

theorem length_decimal_eq {value count : Nat} (least : 10 ^ count ≤ value)
    (less : value < 10 ^ (count + 1)) : (decimal value).length = count + 1 := by
  have upper := (length_decimal_le_iff (Nat.succ_pos count)).mpr less
  rcases Nat.eq_zero_or_pos count with rfl | positive
  · have nonempty := List.length_pos_of_ne_nil (decimal_ne_nil value)
    omega
  · have lower := (length_decimal_le_iff positive).not.mpr (Nat.not_lt.mpr least)
    omega

/-- The estimate is the number of digits or one less. -/
theorem estimate {bits : Nat} (some : 0 < bits) (fits : bits < 65) :
    2 ^ bits ≤ 10 ^ (bits * 308 / 1024 + 1) ∧
      (bits * 308 / 1024 ≠ 0 → 10 ^ (bits * 308 / 1024 - 1) ≤ 2 ^ (bits - 1)) := by
  have all : ∀ bits < 65, 0 < bits → 2 ^ bits ≤ 10 ^ (bits * 308 / 1024 + 1) ∧
      (bits * 308 / 1024 ≠ 0 → 10 ^ (bits * 308 / 1024 - 1) ≤ 2 ^ (bits - 1)) := by
    decide +kernel
  exact all bits fits some

theorem getDigitCount_eq {value : Nat} (fits : value < 2 ^ 64) :
    getDigitCount value = (decimal value).length := by
  by_cases zero : value = 0
  · subst zero
    decide
  have least : 2 ^ (value.log2 + 1 - 1) ≤ value := Nat.log2_self_le zero
  have less : value < 2 ^ (value.log2 + 1) := Nat.lt_log2_self
  have bits : value.log2 + 1 < 65 := Nat.succ_lt_succ ((Nat.log2_lt zero).mpr fits)
  obtain ⟨upper, lower⟩ := estimate (Nat.succ_pos value.log2) bits
  rw [getDigitCount, if_neg zero]
  simp only
  generalize (value.log2 + 1) * 308 / 1024 = digits at *
  split
  · next more => exact (length_decimal_eq more (Nat.lt_of_lt_of_le less upper)).symm
  · next fewer =>
      obtain ⟨digits, rfl⟩ : ∃ rest, digits = rest + 1 := by
        apply Nat.exists_eq_succ_of_ne_zero
        rintro rfl
        exact fewer (Nat.one_le_iff_ne_zero.mpr zero)
      have enough := lower (Nat.succ_ne_zero digits)
      exact (length_decimal_eq (Nat.le_trans enough least) (Nat.not_le.mp fewer)).symm

/-! ## The digits -/

theorem decimal_two {value : Nat} (large : 100 ≤ value) :
    decimal value = decimal (value / 100) ++ twoDigits (value % 100) := by
  rw [decimal_large (by omega), decimal_large (by omega), twoDigits, List.append_assoc]
  have tens : value / 10 % 10 = value % 100 / 10 := by omega
  have ones : value % 10 = value % 100 % 10 := by omega
  rw [Nat.div_div_eq_div_mul, tens, ones]
  rfl

/-- A write of the last elements of a middle part. -/
theorem put_last {front middle : Bytes} {pos : Nat} (tail part : Bytes)
    (here : pos = front.length + middle.length) (fits : part.length ≤ middle.length) :
    put (front ++ middle ++ tail) (pos - part.length : Nat) part =
      some (front ++ middle.take (middle.length - part.length) ++ (part ++ tail)) := by
  have split : front ++ middle ++ tail =
      (front ++ middle.take (middle.length - part.length)) ++
        (middle.drop (middle.length - part.length) ++ tail) := by
    rw [List.append_assoc, List.append_assoc, ← List.append_assoc (middle.take _),
      List.take_append_drop]
  have rest : (middle.drop (middle.length - part.length)).length = part.length := by
    rw [List.length_drop]
    omega
  rw [split, put_append]
  · rw [List.drop_left' rest, List.append_assoc _ part tail]
  · rw [List.length_append, List.length_take]
    omega
  · rw [List.length_append, rest]
    omega

/-- The digits come to lie in front of what is behind the position. -/
theorem ltoaDigits_eq {uval pos : Nat} {front middle tail : Bytes}
    (length : middle.length = (decimal uval).length) (here : pos = front.length + middle.length) :
    ltoaDigits (front ++ middle ++ tail) uval pos = some (front ++ decimal uval ++ tail) := by
  induction uval using Nat.strongRecOn generalizing pos middle tail with
  | ind uval inductionHypothesis =>
      rw [ltoaDigits]
      split
      · next large =>
          have two := decimal_two large
          have digits := congrArg List.length two
          rw [List.length_append] at digits
          have pair : (twoDigits (uval % 100)).length = 2 := rfl
          have fits : (twoDigits (uval % 100)).length ≤ middle.length := by omega
          have written := put_last tail (twoDigits (uval % 100)) here fits
          rw [pair] at written
          simp only [written, Option.bind_eq_bind, Option.bind_some]
          rw [inductionHypothesis (uval / 100) (by omega), two, List.append_assoc,
            List.append_assoc, List.append_assoc]
          · rw [List.length_take]
            omega
          · rw [List.length_take]
            omega
      · next small =>
          have positive := List.length_pos_of_ne_nil (decimal_ne_nil uval)
          rw [if_pos (by omega)]
          split
          · next two =>
              have digits : decimal uval = twoDigits uval := by
                rw [decimal_large two, decimal_small (by omega)]
                rfl
              have written := put_last tail (twoDigits uval) here
                (Nat.le_of_eq (by rw [length, digits]))
              rw [show (twoDigits uval).length = 2 from rfl, length, digits] at written
              rw [written, digits]
              simp [twoDigits]
          · next one =>
              have digits : decimal uval = [digitByte uval] := decimal_small (by omega)
              have written := put_last tail [digitByte uval] here
                (Nat.le_of_eq (by rw [length, digits]))
              rw [List.length_singleton, length, digits] at written
              rw [written, digits]
              simp

/-! ## Numbers -/

/-- A target is taken apart at the positions of the sign, of the digits and of the NUL. -/
theorem exists_parts {dst : Bytes} {first second : Nat} (room : first + second < dst.length) :
    ∃ front middle last, dst = front ++ middle ++ (last :: dst.drop (first + second + 1)) ∧
      front.length = first ∧ middle.length = second := by
  refine ⟨dst.take first, (dst.drop first).take second, dst[first + second], ?_, ?_, ?_⟩
  · rw [List.getElem_cons_drop, ← List.drop_drop, List.append_assoc, List.take_append_drop,
      List.take_append_drop]
  · rw [List.length_take]
    omega
  · rw [List.length_take, List.length_drop]
    omega

/-- The NUL and the digits of `ltoa`, behind a front of the length of the sign. -/
theorem ltoa_digits (dst : Bytes) (uval sign : Nat)
    (room : sign + (decimal uval).length < dst.length) :
    ∃ front ended, front.length = sign ∧
      put dst ((decimal uval).length + sign : Nat) [0] = some ended ∧
      ltoaDigits ended uval ((decimal uval).length + sign) =
        some (front ++ decimal uval ++ (0 :: dst.drop (sign + (decimal uval).length + 1))) := by
  obtain ⟨front, middle, last, split, same, length⟩ := exists_parts room
  have total : (decimal uval).length + sign = front.length + middle.length := by omega
  generalize dst.drop (sign + (decimal uval).length + 1) = tail at *
  refine ⟨front, front ++ middle ++ (0 :: tail), same, ?_, ltoaDigits_eq length total⟩
  rw [split, total, put_append]
  · simp
  · rw [List.length_append]
  · simp

/-- `ltoa` writes the canonical text and a NUL behind it, and returns the length of the text. -/
theorem ltoa_eq {value : Int} {dst : Bytes} (least : -2 ^ 63 ≤ value) (less : value < 2 ^ 63)
    (room : (numeral value).length < dst.length) :
    ltoa value dst = some ((numeral value).length,
      numeral value ++ (0 :: dst.drop ((numeral value).length + 1))) := by
  have count : getDigitCount value.natAbs = (decimal value.natAbs).length :=
    getDigitCount_eq (by omega)
  by_cases neg : value < 0
  · have magnitude : (-(value + 1) + 1).toNat = value.natAbs := by omega
    rw [numeral, if_pos neg, List.length_cons] at room ⊢
    obtain ⟨front, ended, sign, nul, digits⟩ :=
      ltoa_digits dst value.natAbs 1 (by omega)
    obtain ⟨byte, rfl⟩ := List.length_eq_one_iff.mp sign
    simp only [ltoa, neg, decide_true, if_true, magnitude, count, Bool.toNat_true, nul, digits,
      Option.bind_eq_bind, Option.bind_some]
    rw [put_zero (by simp)]
    simp [Nat.add_comm 1]
  · have magnitude : value.toNat = value.natAbs := by omega
    rw [numeral, if_neg neg] at room ⊢
    obtain ⟨front, ended, sign, nul, digits⟩ :=
      ltoa_digits dst value.natAbs 0 (by omega)
    rw [List.length_eq_zero_iff] at sign
    subst sign
    simp only [ltoa, neg, decide_false, Bool.false_eq_true, if_false, magnitude, count,
      Bool.toNat_false, nul, digits, Option.bind_eq_bind, Option.bind_some]
    simp

end TellyDB.Utils
