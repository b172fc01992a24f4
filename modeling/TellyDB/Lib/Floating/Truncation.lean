import TellyDB.Lib.Floating
import Mathlib.Algebra.Order.Floor.Ring
import Mathlib.Data.Rat.Floor
import Mathlib.Tactic.FieldSimp

/-!
Owns the whole part of a number with an exponent: the digits before its point, without those
behind it.
-/

namespace TellyDB.Lib.Floating

open Lib.Positional

variable {base : Nat}

section Whole

variable {K : Type*} [Field K] [LinearOrder K] [IsStrictOrderedRing K]

/-- A point inside or behind the digits divides their number. -/
theorem magnitude_eq_div {digits : List Nat} {exponent : Int} (above : 1 < base)
    {point : Nat} (here : exponent = point) (inside : point ≤ digits.length) :
    magnitude K base digits exponent =
      ofBigEndian base digits / (base : K) ^ (digits.length - point) := by
  have positive : (base : K) ≠ 0 := by exact_mod_cast (Nat.zero_lt_of_lt above).ne'
  have shift : exponent - digits.length = -((digits.length - point : Nat) : Int) := by omega
  rw [magnitude, shift, zpow_neg, zpow_natCast, div_eq_mul_inv]

/-- The digits before the point, and the others as a fraction. -/
theorem magnitude_split {digits : List Nat} {exponent : Int} (above : 1 < base)
    {point : Nat} (here : exponent = point) (inside : point ≤ digits.length) :
    magnitude K base digits exponent = ofBigEndian base (digits.take point) +
      ofBigEndian base (digits.drop point) / (base : K) ^ (digits.length - point) := by
  have positive : (0 : K) < base := by exact_mod_cast Nat.zero_lt_of_lt above
  have number := ofBigEndian_append base (digits.take point) (digits.drop point)
  rw [List.take_append_drop, List.length_drop] at number
  rw [magnitude_eq_div above here inside, number]
  push_cast
  rw [add_div, mul_div_cancel_right₀ _ (pow_pos positive _).ne']

/-- A fraction of digits is below one. -/
theorem fraction_lt_one {digits : List Nat} (above : 1 < base)
    (small : ∀ digit ∈ digits, digit < base) :
    (ofBigEndian base digits : K) / (base : K) ^ digits.length < 1 := by
  have positive : (0 : K) < base := by exact_mod_cast Nat.zero_lt_of_lt above
  rw [div_lt_one (pow_pos positive _)]
  exact_mod_cast ofBigEndian_lt above small

/-- A number whose point is in front of its digits is below one. -/
theorem magnitude_lt_one {digits : List Nat} {exponent : Int} (above : 1 < base)
    (small : ∀ digit ∈ digits, digit < base) (before : exponent ≤ 0) :
    magnitude K base digits exponent < 1 := by
  have positive : (1 : K) ≤ base := by exact_mod_cast above.le
  have scale : (base : K) ^ (exponent - digits.length) ≤ (base : K) ^ (-(digits.length : Int)) :=
    zpow_le_zpow_right₀ positive (by omega)
  calc magnitude K base digits exponent
      ≤ ofBigEndian base digits * (base : K) ^ (-(digits.length : Int)) :=
        mul_le_mul_of_nonneg_left scale (Nat.cast_nonneg _)
    _ = ofBigEndian base digits / (base : K) ^ digits.length := by
        rw [zpow_neg, zpow_natCast, div_eq_mul_inv]
    _ < 1 := fraction_lt_one above small

/-- A point elsewhere than behind the digits makes another number of them. -/
theorem magnitude_ne {digits : List Nat} {exponent : Int} (above : 1 < base)
    (canonical : Canonical base digits) (some_ : digits ≠ [])
    (elsewhere : exponent ≠ digits.length) :
    magnitude K base digits exponent ≠ ofBigEndian base digits := by
  have positive : (0 : K) < base := by exact_mod_cast Nat.zero_lt_of_lt above
  have one : (base : K) ≠ 1 := by exact_mod_cast above.ne'
  have nonzero : (ofBigEndian base digits : K) ≠ 0 := by
    exact_mod_cast mt (canonical.eq_nil above) some_
  intro same
  have scale := (mul_eq_left₀ nonzero).mp same
  have zero := (zpow_eq_one_iff_right₀ positive.le one).mp scale
  omega

variable [FloorRing K]

/-- A number without what is behind its point. -/
def truncated (number : K) : Int := if number < 0 then -⌊-number⌋ else ⌊number⌋

theorem truncated_signed {number : K} (nonneg : 0 ≤ number) (negative : Bool) :
    truncated (signed negative number) = if negative then -⌊number⌋ else ⌊number⌋ := by
  cases negative with
  | false => exact if_neg (not_lt.mpr nonneg)
  | true =>
      rw [signed, if_pos rfl, if_pos rfl, truncated, neg_neg]
      split
      · rfl
      · next zero =>
          have none_ : number = 0 := le_antisymm (by simpa using zero) nonneg
          rw [none_, neg_zero, Int.floor_zero, neg_zero]

/-- The whole part is the number of the digits before the point. -/
theorem floor_magnitude {digits : List Nat} {exponent : Int} (above : 1 < base)
    (small : ∀ digit ∈ digits, digit < base) {point : Nat} (here : exponent = point)
    (inside : point ≤ digits.length) :
    ⌊magnitude K base digits exponent⌋ = ofBigEndian base (digits.take point) := by
  have fraction : (ofBigEndian base (digits.drop point) : K) /
      (base : K) ^ (digits.length - point) < 1 := by
    rw [← List.length_drop]
    exact fraction_lt_one above fun digit member => small digit (List.mem_of_mem_drop member)
  have nonneg : 0 ≤ (ofBigEndian base (digits.drop point) : K) /
      (base : K) ^ (digits.length - point) := by positivity
  rw [Int.floor_eq_iff, magnitude_split above here inside]
  push_cast
  constructor <;> linarith

theorem floor_magnitude_of_nonpos {digits : List Nat} {exponent : Int} (above : 1 < base)
    (small : ∀ digit ∈ digits, digit < base) (before : exponent ≤ 0) :
    ⌊magnitude K base digits exponent⌋ = 0 :=
  Int.floor_eq_zero_iff.mpr
    ⟨magnitude_nonneg digits exponent, magnitude_lt_one above small before⟩

/-- A point behind the digits leaves nothing to cut. -/
theorem floor_magnitude_of_le {digits : List Nat} {exponent : Int}
    (behind : (digits.length : Int) ≤ exponent) :
    (⌊magnitude K base digits exponent⌋ : K) = magnitude K base digits exponent := by
  obtain ⟨zeros, here⟩ := Int.le.dest behind
  have whole : magnitude K base digits exponent =
      ((ofBigEndian base digits * base ^ zeros : Nat) : K) := by
    have shift : exponent - digits.length = (zeros : Int) := by omega
    rw [magnitude, shift, zpow_natCast]
    push_cast
    rfl
  rw [whole, Int.floor_natCast, Int.cast_natCast]

end Whole

end TellyDB.Lib.Floating
