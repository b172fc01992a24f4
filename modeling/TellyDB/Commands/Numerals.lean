import TellyDB.Commands.Arguments
import Mathlib.Tactic.Ring

/-!
Owns what `try_parse_integer` accepts, the integer that such an argument denotes, and
what `atoull_s` and GMP read of it.
-/

namespace TellyDB.Commands

open Resp Database

/-! ## Digits -/

theorem digitValue_eq {byte : UInt8} (digit : isDigit byte = true) :
    0x30 ≤ byte.toNat ∧ byte.toNat ≤ 0x39 ∧ digitValue byte = byte.toNat - 0x30 := by
  obtain ⟨low, high⟩ := of_decide_eq_true digit
  refine ⟨UInt8.le_iff_toNat_le.mp low, UInt8.le_iff_toNat_le.mp high, ?_⟩
  rw [digitValue, UInt8.toNat_sub_of_le _ _ low]
  rfl

theorem digitValue_lt {byte : UInt8} (digit : isDigit byte = true) : digitValue byte < 10 := by
  obtain ⟨low, high, value⟩ := digitValue_eq digit
  omega

theorem digitValue_pos {byte : UInt8} (digit : isDigit byte = true) (other : byte ≠ 0x30) :
    1 ≤ digitValue byte := by
  obtain ⟨low, high, value⟩ := digitValue_eq digit
  have apart : byte.toNat ≠ 0x30 := fun same => other (UInt8.toNat_inj.mp same)
  omega

/-- Only digits. -/
def AllDigits (bytes : Bytes) : Prop := ∀ byte ∈ bytes, isDigit byte = true

theorem AllDigits.head {byte : UInt8} {rest : Bytes} (digits : AllDigits (byte :: rest)) :
    isDigit byte = true := digits byte (List.mem_cons_self ..)

theorem AllDigits.tail {byte : UInt8} {rest : Bytes} (digits : AllDigits (byte :: rest)) :
    AllDigits rest := fun other member => digits other (List.mem_cons_of_mem _ member)

theorem foldl_decimal (number : Nat) (digits : Bytes) :
    digits.foldl (fun number digit => 10 * number + digitValue digit) number =
      number * 10 ^ digits.length + decimalValue digits := by
  induction digits generalizing number with
  | nil => simp [decimalValue]
  | cons digit rest inductionHypothesis =>
      rw [decimalValue, List.foldl_cons, List.foldl_cons, inductionHypothesis,
        inductionHypothesis (10 * 0 + digitValue digit), List.length_cons]
      ring

theorem decimalValue_cons (digit : UInt8) (rest : Bytes) :
    decimalValue (digit :: rest) = digitValue digit * 10 ^ rest.length + decimalValue rest := by
  rw [decimalValue, List.foldl_cons, foldl_decimal, Nat.mul_zero, Nat.zero_add]

theorem decimalValue_ge {digit : UInt8} {rest : Bytes} (isDigit_ : isDigit digit = true)
    (other : digit ≠ 0x30) : 10 ^ rest.length ≤ decimalValue (digit :: rest) := by
  rw [decimalValue_cons]
  have positive := Nat.mul_le_mul_right (10 ^ rest.length) (digitValue_pos isDigit_ other)
  omega

theorem decimalValue_pos {digits : Bytes} (nonempty : digits ≠ []) (all : AllDigits digits)
    (leading : digits.head? ≠ some 0x30) : 1 ≤ decimalValue digits := by
  cases digits with
  | nil => exact absurd rfl nonempty
  | cons digit rest =>
      have other : digit ≠ 0x30 := fun same => leading (congrArg some same)
      exact (Nat.one_le_pow _ _ (by decide)).trans (decimalValue_ge all.head other)

/-- Leading zeros do not count. -/
theorem decimalValue_dropWhile (digits : Bytes) :
    decimalValue (digits.dropWhile (· == 0x30)) = decimalValue digits := by
  induction digits with
  | nil => rfl
  | cons digit rest inductionHypothesis =>
      rw [List.dropWhile_cons]
      split
      · rename_i zero
        rw [inductionHypothesis, decimalValue_cons, eq_of_beq zero]
        simp [digitValue]
      · rfl

/-! ## Integers -/

/-- Digits, or a minus and digits of which the first is not 0. -/
inductive IsInteger : Bytes → Prop where
  | digits {digits : Bytes} (nonempty : digits ≠ []) (all : AllDigits digits) : IsInteger digits
  | minus {digits : Bytes} (nonempty : digits ≠ []) (all : AllDigits digits)
      (leading : digits.head? ≠ some 0x30) : IsInteger (0x2d :: digits)

/-- Digits behind a minus or without one. -/
def isNumeral (bytes : Bytes) : Bool :=
  match bytes with
  | 0x2d :: digits => !digits.isEmpty && digits.all isDigit
  | digits => !digits.isEmpty && digits.all isDigit

/-- The integer that a numeral denotes. -/
def integerValue : Bytes → Int
  | 0x2d :: digits => -decimalValue digits
  | digits => decimalValue digits

theorem AllDigits.head_ne_minus {digits : Bytes} (all : AllDigits digits) :
    digits.head? ≠ some 0x2d := by
  intro minus
  cases all 0x2d (List.mem_of_mem_head? minus)

theorem integerValue_digits {digits : Bytes} (all : AllDigits digits) :
    integerValue digits = decimalValue digits := by
  rw [integerValue.eq_def]
  split
  · cases all.head
  · rfl

/-- No digit lies behind the argument. -/
def Argument.Ends (argument : Argument) : Prop :=
  ∀ byte ∈ argument.following.head?, isDigit byte = false

/-- The digits of the memory end where the argument ends. -/
theorem length_takeWhile_iff {bytes following : Bytes} :
    ((bytes ++ following).takeWhile isDigit).length = bytes.length ↔
      AllDigits bytes ∧ ∀ byte ∈ following.head?, isDigit byte = false := by
  induction bytes with
  | nil =>
      cases following with
      | nil => simp [AllDigits]
      | cons byte rest => cases digit : isDigit byte <;> simp [AllDigits, digit]
  | cons byte rest inductionHypothesis =>
      rw [List.cons_append, List.takeWhile_cons]
      cases digit : isDigit byte with
      | true =>
          rw [if_pos rfl, List.length_cons, List.length_cons, Nat.add_right_cancel_iff,
            inductionHypothesis]
          refine and_congr_left fun _ => ⟨fun all other member => ?_, AllDigits.tail⟩
          rcases List.mem_cons.mp member with rfl | later
          · exact digit
          · exact all other later
      | false =>
          refine iff_of_false (by simp) ?_
          rintro ⟨all, _⟩
          rw [all.head] at digit
          cases digit

theorem minus_isInteger_iff {digits : Bytes} :
    IsInteger (0x2d :: digits) ↔
      digits ≠ [] ∧ AllDigits digits ∧ digits.head? ≠ some 0x30 := by
  constructor
  · intro integer
    cases integer with
    | digits _ all => cases all.head
    | minus nonempty all leading => exact ⟨nonempty, all, leading⟩
  · exact fun ⟨nonempty, all, leading⟩ => .minus nonempty all leading

theorem isInteger_iff_of_ne {byte : UInt8} {rest : Bytes} (other : byte ≠ 0x2d) :
    IsInteger (byte :: rest) ↔ AllDigits (byte :: rest) := by
  constructor
  · intro integer
    cases integer with
    | digits _ all => exact all
    | minus => exact absurd rfl other
  · exact fun all => .digits (List.cons_ne_nil _ _) all

/-- `try_parse_integer` accepts the integers behind which no digit lies. -/
theorem tryParseInteger_iff (argument : Argument) :
    tryParseInteger argument = true ↔ IsInteger argument.bytes ∧ argument.Ends := by
  obtain ⟨bytes, following⟩ := argument
  rw [tryParseInteger]
  cases bytes with
  | nil =>
      have none_ : ¬IsInteger [] := by
        intro integer
        cases integer with
        | digits nonempty => exact nonempty rfl
      refine iff_of_false ?_ fun both => none_ both.1
      split <;> simp
  | cons byte rest =>
      by_cases minus : byte = 0x2d
      · subst minus
        have run := @length_takeWhile_iff rest following
        simp only [Argument.memory, List.cons_append, Bool.and_eq_true, bne_iff_ne, beq_iff_eq,
          List.length_cons, Nat.add_right_cancel_iff, run, minus_isInteger_iff, Argument.Ends]
        cases rest with
        | nil => simp
        | cons first others => simp [and_assoc, and_comm]
      · have run := @length_takeWhile_iff (byte :: rest) following
        rw [isInteger_iff_of_ne minus]
        split
        · rename_i same
          exact absurd (List.cons.inj same).1 minus
        · rw [Argument.memory, Bool.and_eq_true, bne_iff_ne, beq_iff_eq, run]
          refine and_iff_right_of_imp fun both => ?_
          rw [run.mpr both]
          exact Nat.succ_ne_zero _

theorem isNumeral_minus {digits : Bytes} :
    isNumeral (0x2d :: digits) = true ↔ digits ≠ [] ∧ AllDigits digits := by
  rw [isNumeral, Bool.and_eq_true, Bool.not_eq_true', List.isEmpty_eq_false_iff,
    List.all_eq_true, AllDigits]

theorem isNumeral_digits {digits : Bytes} (positive : digits.head? ≠ some 0x2d) :
    isNumeral digits = true ↔ digits ≠ [] ∧ AllDigits digits := by
  rw [isNumeral.eq_def]
  split
  · exact absurd rfl positive
  · rw [Bool.and_eq_true, Bool.not_eq_true', List.isEmpty_eq_false_iff, List.all_eq_true, AllDigits]

theorem IsInteger.isNumeral {bytes : Bytes} (integer : IsInteger bytes) :
    isNumeral bytes = true := by
  cases integer with
  | digits nonempty all => exact (isNumeral_digits all.head_ne_minus).mpr ⟨nonempty, all⟩
  | minus nonempty all _ => exact isNumeral_minus.mpr ⟨nonempty, all⟩

theorem parseDoubleLoop_digits {digits : Bytes} (all : AllDigits digits) (point : Bool) :
    parseDoubleLoop digits point = point := by
  induction digits with
  | nil => rfl
  | cons digit rest inductionHypothesis =>
      have other : digit ≠ 0x2e := by
        rintro rfl
        cases all.head
      rw [parseDoubleLoop, if_neg other, if_pos all.head, inductionHypothesis all.tail]

/-- A numeral has no point. -/
theorem tryParseDouble_numeral (input : Argument) (numeral : isNumeral input.bytes = true) :
    tryParseDouble input = false := by
  rw [tryParseDouble]
  split
  · next minus =>
      rw [minus] at numeral
      exact parseDoubleLoop_digits (isNumeral_minus.mp numeral).2 false
  · next other =>
      have positive : input.bytes.head? ≠ some 0x2d := by
        intro minus
        obtain ⟨rest, same⟩ := List.head?_eq_some_iff.mp minus
        exact other rest same
      exact parseDoubleLoop_digits ((isNumeral_digits positive).mp numeral).2 false

/-! ## `atoull_s` -/

/-- The loop of `atoull_s` stops where the number would pass 64 bits. -/
theorem atoullLoop_eq {digits : Bytes} (all : AllDigits digits) {result : Nat}
    (bounded : result ≤ uint64Max) :
    atoullLoop digits result =
      if result * 10 ^ digits.length + decimalValue digits ≤ uint64Max then
        (result * 10 ^ digits.length + decimalValue digits, .zero)
      else (uint64Max, .erange) := by
  induction digits generalizing result with
  | nil =>
      rw [atoullLoop, if_pos (by simpa [decimalValue] using bounded)]
      simp [decimalValue]
  | cons digit rest inductionHypothesis =>
      have small := digitValue_lt all.head
      have passes : (result > uint64Max / 10 ∨
          (result = uint64Max / 10 ∧ digitValue digit > uint64Max % 10)) ↔
            ¬result * 10 + digitValue digit ≤ uint64Max := by
        rw [uint64Max]
        omega
      have total : result * 10 ^ (digit :: rest).length + decimalValue (digit :: rest) =
          (result * 10 + digitValue digit) * 10 ^ rest.length + decimalValue rest := by
        rw [decimalValue_cons, List.length_cons]
        ring
      rw [atoullLoop, if_pos all.head, total]
      dsimp only
      by_cases fits : result * 10 + digitValue digit ≤ uint64Max
      · rw [if_neg (fun exceeds => passes.mp exceeds fits), inductionHypothesis all.tail fits]
      · have more : (result * 10 + digitValue digit) * 1 ≤
            (result * 10 + digitValue digit) * 10 ^ rest.length :=
          Nat.mul_le_mul_left _ (Nat.one_le_pow _ _ (by decide))
        rw [if_pos (passes.mpr fits), if_neg (by omega)]

theorem AllDigits.dropWhile {digits : Bytes} (all : AllDigits digits) :
    AllDigits (digits.dropWhile (· == 0x30)) :=
  fun byte member => all byte ((List.dropWhile_sublist _).subset member)

/-- `atoull_s` reads the number that digits denote, or is out of range. -/
theorem atoullDigits_eq {digits : Bytes} (all : AllDigits digits) :
    atoullDigits digits = if decimalValue digits ≤ uint64Max then (decimalValue digits, .zero)
      else (uint64Max, .erange) := by
  rw [atoullDigits, ← decimalValue_dropWhile digits]
  have significant := all.dropWhile
  have leading : (digits.dropWhile (· == 0x30)).head? ≠ some 0x30 := by
    intro zero
    have first := List.head?_dropWhile_not (· == (0x30 : UInt8)) digits
    rw [zero] at first
    simp at first
  generalize digits.dropWhile (· == 0x30) = rest at significant leading ⊢
  split
  · rename_i none_
    rw [List.eq_nil_of_length_eq_zero none_]
    rfl
  · split
    · rename_i some_ long
      cases rest with
      | nil => exact absurd rfl some_
      | cons digit others =>
          have other : digit ≠ 0x30 := fun same => leading (congrArg some same)
          have large : 10 ^ others.length ≤ decimalValue (digit :: others) :=
            decimalValue_ge significant.head other
          have power : 10 ^ 20 ≤ 10 ^ others.length :=
            Nat.pow_le_pow_right (by decide) (Nat.le_of_lt_succ long)
          rw [if_neg]
          rw [uint64Max]
          omega
    · rw [atoullLoop_eq significant (Nat.zero_le _), Nat.zero_mul, Nat.zero_add]

theorem atoullS_plus {digits : Bytes} (nonempty : digits ≠ []) (all : AllDigits digits) :
    atoullS (0x2b :: digits) = if decimalValue digits ≤ uint64Max then
      (decimalValue digits, .zero) else (uint64Max, .erange) := by
  rw [atoullS, if_neg (mt List.eq_nil_of_length_eq_zero nonempty), atoullDigits_eq all]

theorem atoullS_digits {digits : Bytes} (nonempty : digits ≠ []) (all : AllDigits digits) :
    atoullS digits = if decimalValue digits ≤ uint64Max then (decimalValue digits, .zero)
      else (uint64Max, .erange) := by
  rw [atoullS.eq_def]
  split
  · cases all.head
  · cases all.head
  · exact atoullDigits_eq all

/-! ## GMP -/

/-- What lies between the end of an argument and the next NUL, without white space. -/
def readOn (following : Bytes) : Bytes := (cString following).filter fun byte => !isSpace byte

theorem AllDigits.clean {digits : Bytes} (all : AllDigits digits) : 0 ∉ digits := by
  intro zero
  cases all 0 zero

theorem isSpace_digit {byte : UInt8} (digit : isDigit byte = true) : isSpace byte = false := by
  obtain ⟨low, _, _⟩ := digitValue_eq digit
  rw [isSpace, decide_eq_false_iff_not]
  rintro (rfl | ⟨-, high⟩)
  · cases digit
  · have below : byte.toNat ≤ 0x0d := UInt8.le_iff_toNat_le.mp high
    omega

theorem AllDigits.filter {digits : Bytes} (all : AllDigits digits) (others : Bytes) :
    (digits ++ others).filter (fun byte => !isSpace byte) =
      digits ++ others.filter fun byte => !isSpace byte := by
  rw [List.filter_append, List.filter_eq_self.mpr]
  intro byte member
  rw [isSpace_digit (all byte member)]
  rfl

theorem decimalValue_append (digits others : Bytes) :
    decimalValue (digits ++ others) =
      decimalValue digits * 10 ^ others.length + decimalValue others := by
  rw [decimalValue, List.foldl_append, foldl_decimal]
  rfl

/-- The number that GMP reads of digits and what follows them. -/
def readDecimal (digits following : Bytes) : Nat :=
  if (readOn following).all isDigit then
    decimalValue digits * 10 ^ (readOn following).length + decimalValue (readOn following)
  else 0

theorem readDecimal_eq {digit : UInt8} {rest : Bytes} (all : AllDigits (digit :: rest))
    (following : Bytes) :
    (if ((digit :: rest ++ cString following).head?.any isDigit) &&
        ((digit :: rest ++ cString following).filter fun byte => !isSpace byte).all isDigit then
      decimalValue ((digit :: rest ++ cString following).filter fun byte => !isSpace byte) else 0) =
      readDecimal (digit :: rest) following := by
  have digits : (digit :: rest).all isDigit = true := List.all_eq_true.mpr all
  rw [all.filter, List.cons_append, List.head?_cons, Option.any_some, all.head, Bool.true_and,
    List.all_append, digits, Bool.true_and, decimalValue_append, readDecimal,
    readOn]

/-- Behind white space GMP reads a sign and digits. -/
theorem dropWhile_isSpace {byte : UInt8} (other : isSpace byte = false) (rest : Bytes) :
    (byte :: rest).dropWhile isSpace = byte :: rest := by
  rw [List.dropWhile_cons, other, if_neg Bool.false_ne_true]

theorem mpzInitSetStr_unsigned {memory string : Bytes}
    (start : (cString memory).dropWhile isSpace = string) (positive : string.head? ≠ some 0x2d) :
    mpzInitSetStr memory = if string.head?.any isDigit &&
      (string.filter fun byte => !isSpace byte).all isDigit then
        (decimalValue (string.filter fun byte => !isSpace byte) : Int) else 0 := by
  subst start
  rw [mpzInitSetStr]
  simp only [positive, if_false]
  split
  · next minus =>
      rw [minus] at positive
      exact absurd rfl positive
  · rfl

theorem mpzInitSetStr_digits {digits : Bytes} (nonempty : digits ≠ []) (all : AllDigits digits)
    (following : Bytes) : mpzInitSetStr (digits ++ following) = readDecimal digits following := by
  cases digits with
  | nil => exact absurd rfl nonempty
  | cons digit rest =>
      have start : (cString (digit :: rest ++ following)).dropWhile isSpace =
          digit :: rest ++ cString following := by
        rw [cString_append all.clean]
        exact dropWhile_isSpace (isSpace_digit all.head) _
      have other : digit ≠ 0x2d := by
        rintro rfl
        cases all.head
      have positive : (digit :: rest ++ cString following).head? ≠ some 0x2d :=
        mt Option.some.inj other
      rw [mpzInitSetStr_unsigned start positive, ← readDecimal_eq all, Nat.cast_ite]
      rfl

theorem mpzInitSetStr_minus {digits : Bytes} (nonempty : digits ≠ []) (all : AllDigits digits)
    (following : Bytes) :
    mpzInitSetStr (0x2d :: digits ++ following) = -readDecimal digits following := by
  cases digits with
  | nil => exact absurd rfl nonempty
  | cons digit rest =>
      have clean : 0 ∉ (0x2d :: digit :: rest : Bytes) := by
        rw [List.mem_cons, not_or]
        exact ⟨by decide, all.clean⟩
      have start : (cString (0x2d :: digit :: rest ++ following)).dropWhile isSpace =
          0x2d :: (digit :: rest ++ cString following) := by
        rw [cString_append clean]
        exact dropWhile_isSpace (by decide) _
      rw [mpzInitSetStr, start, ← readDecimal_eq all]
      rw [List.head?_cons, if_pos rfl, Nat.cast_ite]
      rfl

/-- What follows a number does not change what GMP reads: nothing but white space before the next
NUL, or something that makes a zero of a zero. -/
def ReadAlone (value : Int) (following : Bytes) : Prop :=
  readOn following = [] ∨
    value = 0 ∧ (AllDigits (readOn following) → decimalValue (readOn following) = 0)

theorem readDecimal_eq_iff (digits following : Bytes) :
    readDecimal digits following = decimalValue digits ↔
      ReadAlone (decimalValue digits) following := by
  rw [readDecimal, ReadAlone, AllDigits, ← List.all_eq_true]
  generalize readOn following = rest
  cases rest with
  | nil => simp [decimalValue]
  | cons byte others =>
      cases allOthers : (byte :: others).all isDigit with
      | false =>
          rw [if_neg Bool.false_ne_true]
          simp [eq_comm]
      | true =>
          have larger : decimalValue digits * 10 ≤
              decimalValue digits * 10 ^ (byte :: others).length := by
            apply Nat.mul_le_mul_left
            rw [List.length_cons, Nat.pow_succ]
            have positive := Nat.one_le_pow others.length 10 (by decide)
            omega
          rw [if_pos rfl]
          constructor
          · intro same
            refine .inr ⟨?_, fun _ => ?_⟩ <;> omega
          · rintro (none_ | ⟨zero, rest⟩)
            · cases none_
            · rw [rest rfl, Int.natCast_eq_zero.mp zero, Nat.zero_mul]

/-- What GMP reads of an integer in the buffer. -/
theorem mpzInitSetStr_integer_iff {bytes : Bytes} (integer : IsInteger bytes) (following : Bytes) :
    mpzInitSetStr (bytes ++ following) = integerValue bytes ↔
      ReadAlone (integerValue bytes) following := by
  cases integer with
  | digits nonempty all =>
      rw [mpzInitSetStr_digits nonempty all, integerValue_digits all, ← readDecimal_eq_iff,
        Int.natCast_inj]
  | @minus digits nonempty all leading =>
      have value : integerValue (0x2d :: digits) = -decimalValue digits := rfl
      rw [mpzInitSetStr_minus nonempty all, value, Int.neg_inj, Int.natCast_inj,
        readDecimal_eq_iff, ReadAlone, ReadAlone, Int.neg_eq_zero]

/-- A number that a NUL ends is read as it is. -/
theorem mpzInitSetStr_terminated {bytes : Bytes} (integer : IsInteger bytes) (following : Bytes) :
    mpzInitSetStr (bytes ++ 0 :: following) = integerValue bytes :=
  (mpzInitSetStr_integer_iff integer _).mpr (.inl rfl)

end TellyDB.Commands
