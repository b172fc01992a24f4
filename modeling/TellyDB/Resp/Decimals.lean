import TellyDB.Lib.Floating
import TellyDB.Resp.Parsing
import Mathlib.Data.Rat.Defs

/-!
Owns what a decimal text denotes: a sign, digits, and maybe a point among or next to them.
-/

namespace TellyDB.Resp

open Lib.Positional Lib.Floating

/-- The number of a string of digits. -/
def digitsNumber (digits : Bytes) : Nat :=
  ofBigEndian 10 (digits.map fun digit => digit.toNat - 0x30)

/-- The number of a text without a sign. -/
def readUnsigned (text : Bytes) : Option ℚ :=
  let whole := text.takeWhile isDigitByte
  match text.dropWhile isDigitByte with
  | [] => if whole = [] then none else some (digitsNumber whole)
  | 0x2e :: fraction =>
      if fraction.all isDigitByte ∧ whole ++ fraction ≠ [] then
        some (digitsNumber (whole ++ fraction) / (10 : ℚ) ^ fraction.length)
      else none
  | _ => none

/-- The number a text denotes. -/
def readDecimal (text : Bytes) : Option ℚ :=
  match text with
  | 0x2d :: rest => (readUnsigned rest).map fun number => -number
  | _ => readUnsigned text

/-- The sign of a text. -/
def signText (negative : Bool) : Bytes := if negative then [0x2d] else []

/-- The bytes of digits. -/
def digitsText (digits : List Nat) : Bytes := digits.map digitByte

/-! ## Digits -/

section Digits

variable {digits others : List Nat}

theorem isDigitByte_digitsText (small : ∀ digit ∈ digits, digit < 10) :
    ∀ byte ∈ digitsText digits, isDigitByte byte = true := by
  intro byte member
  obtain ⟨digit, inside, rfl⟩ := List.mem_map.mp member
  exact isDigitByte_digitByte (small digit inside)

theorem digitsNumber_digitsText (small : ∀ digit ∈ digits, digit < 10) :
    digitsNumber (digitsText digits) = ofBigEndian 10 digits := by
  have back : ∀ digit < 10, (digitByte digit).toNat - 0x30 = digit := by decide
  have same : (digitsText digits).map (fun digit => digit.toNat - 0x30) = digits := by
    rw [digitsText, List.map_map]
    exact (List.map_congr_left fun digit member => back digit (small digit member)).trans
      (List.map_id' digits)
  rw [digitsNumber, same]

theorem digitsText_append :
    digitsText (digits ++ others) = digitsText digits ++ digitsText others :=
  List.map_append

theorem takeWhile_digitsText (rest : Bytes) (small : ∀ digit ∈ digits, digit < 10)
    (ends : rest.head?.all fun byte => !isDigitByte byte) :
    (digitsText digits ++ rest).takeWhile isDigitByte = digitsText digits ∧
      (digitsText digits ++ rest).dropWhile isDigitByte = rest := by
  have all := isDigitByte_digitsText small
  rw [List.takeWhile_append_of_pos all, List.dropWhile_append_of_pos all]
  cases rest with
  | nil => exact ⟨List.append_nil _, rfl⟩
  | cons byte rest =>
      have other : ¬isDigitByte byte = true := by simpa using ends
      rw [List.takeWhile_cons_of_neg other, List.dropWhile_cons_of_neg other]
      exact ⟨List.append_nil _, rfl⟩

/-- Digits alone are their number. -/
theorem readUnsigned_digits (small : ∀ digit ∈ digits, digit < 10) (some_ : digits ≠ []) :
    readUnsigned (digitsText digits) = some (ofBigEndian 10 digits : ℚ) := by
  obtain ⟨whole, behind⟩ := takeWhile_digitsText [] small rfl
  rw [List.append_nil] at whole behind
  have filled : digitsText digits ≠ [] := mt List.map_eq_nil_iff.mp some_
  rw [readUnsigned, whole, behind]
  simp only [if_neg filled, digitsNumber_digitsText small]

/-- Digits with a point are divided by the power of those behind it. -/
theorem readUnsigned_point (small : ∀ digit ∈ digits ++ others, digit < 10)
    (some_ : digits ++ others ≠ []) :
    readUnsigned (digitsText digits ++ 0x2e :: digitsText others) =
      some (ofBigEndian 10 (digits ++ others) / (10 : ℚ) ^ others.length) := by
  have smallWhole : ∀ digit ∈ digits, digit < 10 := fun digit member =>
    small digit (List.mem_append_left _ member)
  have smallFraction : ∀ digit ∈ others, digit < 10 := fun digit member =>
    small digit (List.mem_append_right _ member)
  obtain ⟨whole, behind⟩ := takeWhile_digitsText (0x2e :: digitsText others) smallWhole rfl
  have all : (digitsText others).all isDigitByte = true :=
    List.all_eq_true.mpr (isDigitByte_digitsText smallFraction)
  have filled : digitsText digits ++ digitsText others ≠ [] := by
    rw [← digitsText_append]
    exact mt List.map_eq_nil_iff.mp some_
  rw [readUnsigned, whole, behind]
  show (if _ ∧ _ then _ else none) = _
  rw [if_pos ⟨all, filled⟩, ← digitsText_append, digitsNumber_digitsText small]
  rw [digitsText, List.length_map]

end Digits

/-! ## Signs -/

theorem readDecimal_sign {text : Bytes} {number : ℚ} (negative : Bool)
    (read : readUnsigned text = some number) :
    readDecimal (signText negative ++ text) = some (signed negative number) := by
  cases negative with
  | true =>
      show (readUnsigned text).map (fun number => -number) = _
      rw [read]
      rfl
  | false =>
      have unsigned : readDecimal text = readUnsigned text := by
        unfold readDecimal
        split
        · cases read
        · rfl
      exact unsigned.trans read

theorem readDecimal_zero : readDecimal (text "0") = some 0 := by
  have small : ∀ digit ∈ [0], digit < 10 := by decide
  have digit := readDecimal_sign false (readUnsigned_digits small (List.cons_ne_nil _ _))
  rw [show text "0" = signText false ++ digitsText [0] from rfl, digit]
  simp [signed, ofBigEndian]

/-! ## Texts that do not denote zero -/

/-- A first digit other than 0 shows. -/
theorem digitsNumber_pos {first : Nat} (some_ : first ≠ 0) (small : first < 10) (rest : Bytes) :
    0 < digitsNumber (digitByte first :: rest) := by
  have back : ∀ digit < 10, (digitByte digit).toNat - 0x30 = digit := by decide
  have digit := back first small
  rw [digitsNumber, List.map_cons, ofBigEndian_cons, digit]
  have power : 0 < 10 ^ (rest.map fun digit => digit.toNat - 0x30).length :=
    Nat.pow_pos (by decide)
  have product := Nat.mul_pos (Nat.pos_of_ne_zero some_) power
  omega

theorem readUnsigned_ne_zero {first : Nat} (some_ : first ≠ 0) (small : first < 10)
    (rest : Bytes) : readUnsigned (digitByte first :: rest) ≠ some 0 := by
  have positive := digitsNumber_pos some_ small
  intro zero
  rw [readUnsigned, List.takeWhile_cons_of_pos (isDigitByte_digitByte small)] at zero
  split at zero
  · rw [if_neg (List.cons_ne_nil _ _), Option.some.injEq, Nat.cast_eq_zero] at zero
    exact absurd zero (positive _).ne'
  · split at zero
    · rw [Option.some.injEq, div_eq_zero_iff] at zero
      rcases zero with number | power
      · rw [Nat.cast_eq_zero] at number
        exact absurd number (positive _).ne'
      · exact absurd power (by positivity)
    · cases zero
  · cases zero

theorem readDecimal_sign_ne_zero {first : Nat} (some_ : first ≠ 0) (small : first < 10)
    (negative : Bool) (rest : Bytes) :
    readDecimal (signText negative ++ digitByte first :: rest) ≠ some 0 := by
  have unsigned := readUnsigned_ne_zero some_ small rest
  cases read : readUnsigned (digitByte first :: rest) with
  | some number =>
      rw [readDecimal_sign negative read]
      rw [read] at unsigned
      intro zero
      apply unsigned
      cases negative with
      | true => rw [← neg_eq_zero.mp (Option.some.inj zero)]
      | false => exact zero
  | none =>
      cases negative with
      | true =>
          show (readUnsigned (digitByte first :: rest)).map _ ≠ _
          rw [read]
          exact nofun
      | false =>
          have noSign : ∀ digit < 10, digitByte digit ≠ 0x2d := by decide
          show readDecimal (digitByte first :: rest) ≠ some 0
          unfold readDecimal
          split
          · next same => exact absurd (List.cons.inj same).1 (noSign first small)
          · exact unsigned

end TellyDB.Resp
