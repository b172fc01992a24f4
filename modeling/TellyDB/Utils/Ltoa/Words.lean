import TellyDB.Utils.Ltoa

/-!
Owns `ltoa` and `get_digit_count` with the words and the tables of the source: what wraps, what is
read of a table, and that the text comes out of it.

`none` is a read behind a table or a write behind the target.
-/

namespace TellyDB.Utils

open Resp Lib.Slices

/-! ## Tables -/

/-- `TWO_DIGITS_TABLE`. -/
def twoDigitsTable : Bytes :=
  text "00010203040506070809" ++ text "10111213141516171819" ++ text "20212223242526272829" ++
  text "30313233343536373839" ++ text "40414243444546474849" ++ text "50515253545556575859" ++
  text "60616263646566676869" ++ text "70717273747576777879" ++ text "80818283848586878889" ++
  text "90919293949596979899"

/-- `POW10_TABLE`. -/
def pow10Table : List UInt64 :=
  [1, 10, 100, 1000,
    10000, 100000, 1000000, 10000000,
    100000000, 1000000000, 10000000000, 100000000000,
    1000000000000, 10000000000000, 100000000000000, 1000000000000000,
    10000000000000000, 100000000000000000, 1000000000000000000, 10000000000000000000]

/-- Two bytes of `TWO_DIGITS_TABLE`, which `memcpy` reads. -/
def readTwoDigits (start : UInt32) : Option Bytes :=
  if start.toNat + 2 ≤ twoDigitsTable.length then some (slice twoDigitsTable start.toNat 2)
  else none

/-! ## Words -/

/-- `__builtin_clzll` of a value that is not zero. -/
def builtinClzll (value : UInt64) : UInt64 := UInt64.ofNat (63 - value.toNat.log2)

/-- `get_digit_count`. -/
def getDigitCountWord (value : UInt64) : Option UInt8 :=
  if value = 0 then some 1
  else do
    let bits := 64 - builtinClzll value
    let approximateDigits := (bits * 308) >>> 10
    let power ← pow10Table[approximateDigits.toNat]?
    some (approximateDigits + if power ≤ value then 1 else 0).toUInt8

/-- The loop of `ltoa`, and the one or two digits it leaves. -/
def ltoaWordDigits (dst : Bytes) (uval : UInt64) (pos : UInt8) : Option Bytes :=
  if 100 ≤ uval then do
    let remainder := (uval % 100).toUInt32
    let pos := pos - 2
    let digits ← readTwoDigits (remainder * 2)
    let dst ← put dst pos.toNat digits
    ltoaWordDigits dst (uval / 100) pos
  else if pos ≠ 0 then
    let remainder := uval.toUInt8
    if 10 ≤ remainder then do
      let pos := pos - 2
      let digits ← readTwoDigits (remainder.toUInt32 * 2)
      put dst pos.toNat digits
    else
      let pos := pos - 1
      put dst pos.toNat [0x30 + remainder]
  else some dst
termination_by uval.toNat
decreasing_by
  rename_i large
  rw [UInt64.toNat_div]
  have hundred : 100 ≤ uval.toNat := UInt64.le_iff_toNat_le.mp large
  exact Nat.div_lt_self (Nat.lt_of_lt_of_le (by decide) hundred) (by decide)

/-- `ltoa`: what it returns, and the target. -/
def ltoaWord (value : Int64) (dst : Bytes) : Option (UInt8 × Bytes) := do
  let neg := decide (value < 0)
  let uval := if neg then (-(value + 1) + 1).toUInt64 else value.toUInt64
  let len ← getDigitCountWord uval
  let totalLen := len + if neg then 1 else 0
  let dst ← put dst totalLen.toNat [0]
  let dst ← ltoaWordDigits dst uval totalLen
  let dst ← if neg then put dst 0 [0x2d] else some dst
  some (totalLen, dst)

/-! ## The tables hold what they are for -/

theorem readTwoDigits_eq {remainder : Nat} (small : remainder < 100) :
    readTwoDigits (UInt32.ofNat remainder * 2) = some (twoDigits remainder) := by
  have all : ∀ remainder < 100,
      readTwoDigits (UInt32.ofNat remainder * 2) = some (twoDigits remainder) := by
    decide +kernel
  exact all remainder small

theorem pow10Table_eq {digits : Nat} (inside : digits < 20) :
    ∃ power, pow10Table[digits]? = some power ∧ power.toNat = 10 ^ digits := by
  have all : ∀ digits < 20, pow10Table[digits]? = some (UInt64.ofNat (10 ^ digits)) ∧
      (UInt64.ofNat (10 ^ digits)).toNat = 10 ^ digits := by
    decide +kernel
  exact ⟨_, all digits inside⟩

/-! ## The words hold what is computed -/

/-- The number of bits. -/
theorem toNat_bits {value : UInt64} (some_ : value ≠ 0) :
    (64 - builtinClzll value).toNat = value.toNat.log2 + 1 := by
  have zero : value.toNat ≠ 0 := fun same => some_ (UInt64.toNat_inj.mp same)
  have small : value.toNat.log2 < 64 := (Nat.log2_lt zero).mpr value.toNat_lt
  have leading : (builtinClzll value).toNat = 63 - value.toNat.log2 :=
    UInt64.toNat_ofNat_of_lt' (Nat.lt_of_le_of_lt (Nat.sub_le ..) (by decide))
  rw [UInt64.toNat_sub_of_le, leading]
  · show 64 - (63 - value.toNat.log2) = _
    omega
  · rw [UInt64.le_iff_toNat_le, leading]
    show 63 - value.toNat.log2 ≤ 64
    omega

/-- `get_digit_count` stays in `POW10_TABLE`, and none of its words wraps. -/
theorem getDigitCountWord_eq (value : UInt64) :
    getDigitCountWord value = some (UInt8.ofNat (getDigitCount value.toNat)) := by
  rw [getDigitCountWord, getDigitCount]
  by_cases zero : value = 0
  · subst zero
    rfl
  have nonzero : value.toNat ≠ 0 := fun same => zero (UInt64.toNat_inj.mp same)
  have small : value.toNat.log2 < 64 := (Nat.log2_lt nonzero).mpr value.toNat_lt
  have estimated : (((64 - builtinClzll value) * 308) >>> 10).toNat =
      (value.toNat.log2 + 1) * 308 / 1024 := by
    rw [UInt64.toNat_shiftRight, UInt64.toNat_mul, toNat_bits zero]
    show ((value.toNat.log2 + 1) * 308 % 2 ^ 64) >>> 10 = _
    rw [Nat.mod_eq_of_lt (by omega), Nat.shiftRight_eq_div_pow]
  obtain ⟨power, inside, isPower⟩ :=
    pow10Table_eq (show (value.toNat.log2 + 1) * 308 / 1024 < 20 by omega)
  rw [if_neg zero, if_neg nonzero]
  simp only [estimated, inside, Option.bind_eq_bind, Option.bind_some, UInt64.le_iff_toNat_le,
    isPower, Option.some.injEq]
  apply UInt8.toNat_inj.mp
  rw [UInt64.toNat_toUInt8, UInt64.toNat_add, estimated, UInt8.toNat_ofNat']
  split
  · show ((value.toNat.log2 + 1) * 308 / 1024 + 1) % 2 ^ 64 % 2 ^ 8 = _
    omega
  · show ((value.toNat.log2 + 1) * 308 / 1024 + 0) % 2 ^ 64 % 2 ^ 8 = _
    omega

theorem toNat_sub_two {pos : UInt8} (room : 2 ≤ pos.toNat) : (pos - 2).toNat = pos.toNat - 2 :=
  UInt8.toNat_sub_of_le _ _ (UInt8.le_iff_toNat_le.mpr room)

theorem readTwoDigits_word {uval : UInt64} (small : uval.toNat < 100) :
    readTwoDigits (uval.toUInt32 * 2) = some (twoDigits uval.toNat) ∧
      readTwoDigits (uval.toUInt8.toUInt32 * 2) = some (twoDigits uval.toNat) := by
  have word : uval.toUInt32 = UInt32.ofNat uval.toNat := rfl
  have byte : uval.toUInt8.toUInt32 = UInt32.ofNat uval.toNat := by
    apply UInt32.toNat_inj.mp
    rw [UInt8.toNat_toUInt32, UInt64.toNat_toUInt8, UInt32.toNat_ofNat']
    omega
  rw [byte, word]
  exact ⟨readTwoDigits_eq small, readTwoDigits_eq small⟩

/-- The loop stays in its table, and its position does not wrap. -/
theorem ltoaWordDigits_eq {dst : Bytes} {uval : UInt64} {pos : UInt8}
    (room : (decimal uval.toNat).length ≤ pos.toNat) :
    ltoaWordDigits dst uval pos = ltoaDigits dst uval.toNat pos.toNat := by
  induction dst, uval, pos using ltoaWordDigits.induct with
  | case1 dst uval pos large before inductionHypothesis =>
      have hundred : 100 ≤ uval.toNat := UInt64.le_iff_toNat_le.mp large
      have two := congrArg List.length (decimal_two hundred)
      rw [List.length_append, show (twoDigits (uval.toNat % 100)).length = 2 from rfl] at two
      have remainder : (uval % 100).toNat = uval.toNat % 100 := UInt64.toNat_mod ..
      have quotient : (uval / 100).toNat = uval.toNat / 100 := UInt64.toNat_div ..
      have digits := (readTwoDigits_word (remainder ▸ Nat.mod_lt _ (by decide))).1
      have position : before.toNat = pos.toNat - 2 := toNat_sub_two (by omega)
      rw [ltoaWordDigits, if_pos large, ltoaDigits, if_pos hundred]
      dsimp only
      rw [digits, remainder, Option.bind_eq_bind, Option.bind_some, position]
      refine congrArg (Option.bind _) (funext fun dst => ?_)
      rw [← quotient, ← position]
      exact inductionHypothesis dst (by rw [quotient]; omega)
  | case2 dst uval pos small some_ remainder two =>
      have less : uval.toNat < 100 := UInt64.lt_iff_toNat_lt.mp (UInt64.not_le.mp small)
      have ten : 10 ≤ uval.toNat := by
        have ten := UInt8.le_iff_toNat_le.mp two
        rw [UInt64.toNat_toUInt8, Nat.mod_eq_of_lt (by omega)] at ten
        exact ten
      have count : (decimal uval.toNat).length = 2 := length_decimal_eq ten less
      have digits := (readTwoDigits_word less).2
      have position : (pos - 2).toNat = pos.toNat - 2 := toNat_sub_two (by omega)
      rw [ltoaWordDigits, if_neg small, if_pos some_, ltoaDigits,
        if_neg (Nat.not_le.mpr less), if_pos (show pos.toNat ≠ 0 by omega), if_pos ten]
      dsimp only
      rw [if_pos two, digits, Option.bind_eq_bind, Option.bind_some, position]
  | case3 dst uval pos small some_ remainder one =>
      have less : uval.toNat < 100 := UInt64.lt_iff_toNat_lt.mp (UInt64.not_le.mp small)
      have ten : ¬10 ≤ uval.toNat := by
        intro ten
        refine one (UInt8.le_iff_toNat_le.mpr ?_)
        rw [UInt64.toNat_toUInt8, Nat.mod_eq_of_lt (by omega)]
        exact ten
      have nonempty := List.length_pos_of_ne_nil (decimal_ne_nil uval.toNat)
      have position : (pos - 1).toNat = pos.toNat - 1 :=
        UInt8.toNat_sub_of_le _ _ (UInt8.le_iff_toNat_le.mpr (by
          show 1 ≤ pos.toNat
          omega))
      have digit : 0x30 + uval.toUInt8 = digitByte uval.toNat := by
        rw [digitByte, UInt8.ofNat_add]
        rfl
      rw [ltoaWordDigits, if_neg small, if_pos some_, ltoaDigits,
        if_neg (Nat.not_le.mpr less), if_pos (show pos.toNat ≠ 0 by omega), if_neg ten]
      dsimp only
      rw [if_neg one, position, digit]
  | case4 dst uval pos small none_ =>
      have nonempty := List.length_pos_of_ne_nil (decimal_ne_nil uval.toNat)
      have zero : pos.toNat = 0 := congrArg UInt8.toNat (not_not.mp none_)
      omega

/-- The magnitude, also of the least value, where `-(value + 1) + 1` wraps. -/
theorem toNat_magnitude (value : Int64) :
    (if decide (value < 0) then (-(value + 1) + 1).toUInt64 else value.toUInt64).toNat =
      value.toInt.natAbs := by
  have signed : value.toInt = if 2 * value.toUInt64.toNat < 2 ^ 64 then
      (value.toUInt64.toNat : Int) else value.toUInt64.toNat - 2 ^ 64 :=
    BitVec.toInt_eq_toNat_cond _
  have wraps : (-(value + 1) + 1).toUInt64.toNat = (2 ^ 64 - value.toUInt64.toNat) % 2 ^ 64 := by
    rw [Int64.toUInt64_add, Int64.toUInt64_neg, Int64.toUInt64_add, UInt64.neg_add,
      UInt64.sub_add_cancel, UInt64.toNat_neg]
    rfl
  have less := value.toUInt64.toNat_lt
  by_cases negative : value < 0
  · have below : value.toInt < 0 := Int64.lt_iff_toInt_lt.mp negative
    rw [decide_eq_true negative, if_pos rfl, wraps]
    split at signed
    · omega
    · omega
  · have above : ¬value.toInt < 0 := fun below => negative (Int64.lt_iff_toInt_lt.mpr below)
    rw [decide_eq_false negative, if_neg Bool.false_ne_true]
    split at signed
    · omega
    · omega

/-! ## The text -/

theorem ltoa_magnitude (value : Int) :
    (if decide (value < 0) then (-(value + 1) + 1).toNat else value.toNat) = value.natAbs := by
  by_cases negative : value < 0
  · rw [decide_eq_true negative, if_pos rfl]
    omega
  · rw [decide_eq_false negative, if_neg Bool.false_ne_true]
    omega

section Text

variable {value : Int} (least : -2 ^ 63 ≤ value) (less : value < 2 ^ 63)

include least less

/-- The length of a text, with its sign. -/
theorem getDigitCount_numeral :
    getDigitCount value.natAbs + (decide (value < 0)).toNat = (numeral value).length := by
  rw [getDigitCount_eq (by omega), numeral]
  by_cases negative : value < 0
  · rw [decide_eq_true negative, if_pos negative]
    rfl
  · rw [decide_eq_false negative, if_neg negative]
    rfl

/-- A text is short. -/
theorem getDigitCount_le : getDigitCount value.natAbs ≤ 19 := by
  rw [getDigitCount_eq (by omega), length_decimal_le_iff (by decide)]
  omega

/-- Without room for the NUL `ltoa` writes behind its target. -/
theorem ltoa_without_room {dst : Bytes} (full : dst.length ≤ (numeral value).length) :
    ltoa value dst = none := by
  rw [← getDigitCount_numeral least less] at full
  rw [ltoa]
  dsimp only
  have behind : put dst ((getDigitCount value.natAbs + (decide (value < 0)).toNat : Nat) : Int)
      [0] = none := by
    refine if_neg fun inside => ?_
    have inside := inside.2
    rw [List.length_singleton] at inside
    omega
  rw [ltoa_magnitude, behind]
  rfl

end Text

/-- The words of `ltoa` hold what it computes. -/
theorem ltoaWord_eq (value : Int64) (dst : Bytes) :
    ltoaWord value dst = (ltoa value.toInt dst).map fun result =>
      (UInt8.ofNat result.1, result.2) := by
  have sign : decide (value < 0) = decide (value.toInt < 0) :=
    decide_eq_decide.mpr Int64.lt_iff_toInt_lt
  have magnitude := toNat_magnitude value
  have short := getDigitCount_le (Int64.le_toInt value) (Int64.toInt_lt value)
  rw [ltoaWord, ltoa]
  dsimp only
  generalize (if decide (value < 0) then (-(value + 1) + 1).toUInt64 else value.toUInt64) =
    uval at magnitude ⊢
  rw [getDigitCountWord_eq, ltoa_magnitude, ← magnitude, sign]
  rw [← magnitude] at short
  generalize decide (value.toInt < 0) = neg
  have total : (UInt8.ofNat (getDigitCount uval.toNat) + if neg then 1 else 0).toNat =
      getDigitCount uval.toNat + neg.toNat := by
    cases neg
    · rw [if_neg Bool.false_ne_true, UInt8.toNat_add, UInt8.toNat_ofNat', Bool.toNat_false]
      show (getDigitCount uval.toNat % 2 ^ 8 + 0) % 2 ^ 8 = _
      omega
    · rw [if_pos rfl, UInt8.toNat_add, UInt8.toNat_ofNat', Bool.toNat_true]
      show (getDigitCount uval.toNat % 2 ^ 8 + 1) % 2 ^ 8 = _
      omega
  simp only [Option.bind_eq_bind, Option.bind_some]
  generalize (UInt8.ofNat (getDigitCount uval.toNat) + if neg then 1 else 0) = totalLen at total ⊢
  have room : (decimal uval.toNat).length ≤ totalLen.toNat := by
    rw [total, getDigitCount_eq uval.toNat_lt]
    exact Nat.le_add_right ..
  have returned : UInt8.ofNat totalLen.toNat = totalLen := UInt8.ofNat_toNat
  simp only [ltoaWordDigits_eq room, ← total]
  cases neg with
  | false => simp [Option.map_bind, returned]
  | true => simp [Option.map_bind, returned]

/-- `ltoa` writes the canonical text of every value with a NUL behind it and nothing else, and
returns how long the text is; `get_digit_count` counts the digits of every value. -/
theorem ltoaWord_exact :
    (∀ (value : Int64) (dst : Bytes), ∃ length : UInt8,
      length.toNat = (numeral value.toInt).length ∧
      ltoaWord value dst = if length.toNat < dst.length then
        some (length, numeral value.toInt ++ (0 :: dst.drop (length.toNat + 1))) else none) ∧
      ∀ value : UInt64, ∃ count : UInt8, count.toNat = (decimal value.toNat).length ∧
        getDigitCountWord value = some count := by
  constructor
  · intro value dst
    have least : -2 ^ 63 ≤ value.toInt := Int64.le_toInt value
    have less : value.toInt < 2 ^ 63 := Int64.toInt_lt value
    have short : (numeral value.toInt).length < 2 ^ 8 := by
      have digits := getDigitCount_le least less
      have sign := Bool.toNat_le (decide (value.toInt < 0))
      rw [← getDigitCount_numeral least less]
      omega
    have length : (UInt8.ofNat (numeral value.toInt).length).toNat =
      (numeral value.toInt).length := UInt8.toNat_ofNat_of_lt' short
    refine ⟨_, length, ?_⟩
    rw [ltoaWord_eq, length]
    split
    · next room =>
        rw [ltoa_eq least less room]
        rfl
    · next full =>
        rw [ltoa_without_room least less (Nat.not_lt.mp full)]
        rfl
  · intro value
    have counted := getDigitCount_eq value.toNat_lt
    have short : (decimal value.toNat).length ≤ 20 :=
      (length_decimal_le_iff (by decide)).mpr (Nat.lt_trans value.toNat_lt (by decide))
    refine ⟨_, ?_, getDigitCountWord_eq value⟩
    rw [UInt8.toNat_ofNat_of_lt' (by rw [counted]; exact Nat.lt_of_le_of_lt short (by decide)),
      counted]

end TellyDB.Utils
