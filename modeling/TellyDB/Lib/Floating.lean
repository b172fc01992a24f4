import TellyDB.Lib.Positional
import Mathlib.Algebra.Order.Field.Basic
import Mathlib.Data.Nat.Cast.Order.Field
import Mathlib.Tactic.Positivity
import Mathlib.Tactic.Push

/-!
Owns numbers with an exponent: a sign, digits of some base behind the point, and the power
of the base. Without zeros at either end of the digits a number has one such form.
-/

namespace TellyDB.Lib.Floating

open Lib.Positional

variable {base : Nat}

/-! ## Digits -/

/-- Digits of a base with no zero at either end. -/
structure Canonical (base : Nat) (digits : List Nat) : Prop where
  small : ∀ digit ∈ digits, digit < base
  leading : digits.head? ≠ some 0
  trailing : digits.getLast? ≠ some 0

namespace Canonical

variable {digits others : List Nat}

theorem digits_eq (canonical : Canonical base digits) (above : 1 < base) :
    (Nat.digits base (ofBigEndian base digits)).reverse = digits := by
  rw [ofBigEndian_eq_ofDigits, Nat.digits_ofDigits base above, List.reverse_reverse]
  · intro digit member
    exact canonical.small digit (List.mem_reverse.mp member)
  · intro some_ zero
    apply canonical.leading
    rw [← List.getLast?_reverse, List.getLast?_eq_getLast_of_ne_nil some_, zero]

/-- The digits are those of their number. -/
theorem injective (canonical : Canonical base digits) (other : Canonical base others)
    (above : 1 < base) (same : ofBigEndian base digits = ofBigEndian base others) :
    digits = others := by
  rw [← canonical.digits_eq above, same, other.digits_eq above]

theorem eq_nil (canonical : Canonical base digits) (above : 1 < base)
    (zero : ofBigEndian base digits = 0) : digits = [] := by
  rw [← canonical.digits_eq above, zero, Nat.digits_zero, List.reverse_nil]

/-- The last digit is what the base leaves over. -/
theorem not_dvd (canonical : Canonical base digits) (some_ : digits ≠ []) :
    ¬base ∣ ofBigEndian base digits := by
  obtain ⟨front, last, rfl⟩ := List.eq_nil_or_concat' digits |>.resolve_left some_
  intro divides
  have small : last < base := canonical.small last (by simp)
  have nonzero : last ≠ 0 := by
    rintro rfl
    exact canonical.trailing (by simp)
  rw [ofBigEndian_append] at divides
  have lastDivides : base ∣ ofBigEndian base [last] := by
    refine (Nat.dvd_add_right ?_).mp divides
    rw [List.length_singleton, Nat.pow_one]
    exact Nat.dvd_mul_left _ _
  rw [ofBigEndian_cons, List.length_nil, Nat.pow_zero, Nat.mul_one, ofBigEndian_nil,
    Nat.add_zero] at lastDivides
  exact nonzero (Nat.eq_zero_of_dvd_of_lt lastDivides small)

end Canonical

/-! ## Values -/

section Values

variable {K : Type*} [Field K] [LinearOrder K] [IsStrictOrderedRing K]

/-- What multiplies the number of a sign. -/
def signed (negative : Bool) (number : K) : K := if negative then -number else number

/-- A factor of the base would show in the greater exponent. -/
theorem exponent_le {first second : Nat} {low high : Int} (above : 1 < base)
    (whole : ¬base ∣ first) (same : (first : K) * (base : K) ^ low = second * (base : K) ^ high) :
    high ≤ low := by
  by_contra less
  obtain ⟨steps, apart⟩ := Int.eq_ofNat_of_zero_le (show 0 ≤ high - low - 1 by omega)
  have positive : (0 : K) < base := by exact_mod_cast Nat.zero_lt_of_lt above
  have exponent : high = low + (steps + 1 : Nat) := by omega
  rw [exponent, zpow_add₀ positive.ne', zpow_natCast, mul_comm ((base : K) ^ low), ← mul_assoc]
    at same
  have product := mul_right_cancel₀ (zpow_pos positive low).ne' same
  have natural : first = second * base ^ (steps + 1) := by exact_mod_cast product
  apply whole
  rw [natural, Nat.pow_succ, ← Nat.mul_assoc]
  exact Nat.dvd_mul_left _ _

theorem signed_injective {first second : K} {negative other : Bool} (low : 0 ≤ first)
    (otherLow : 0 ≤ second) (same : signed negative first = signed other second) :
    first = second ∧ (first ≠ 0 → negative = other) := by
  cases negative <;> cases other <;>
    simp only [signed, if_true, Bool.false_eq_true, if_false] at same
  · exact ⟨same, fun _ => rfl⟩
  · refine ⟨?_, fun nonzero => absurd ?_ nonzero⟩ <;> linarith
  · refine ⟨?_, fun nonzero => absurd ?_ nonzero⟩ <;> linarith
  · exact ⟨neg_injective same, fun _ => rfl⟩

variable (K) in
/-- A number without its sign. -/
def magnitude (base : Nat) (digits : List Nat) (exponent : Int) : K :=
  ofBigEndian base digits * (base : K) ^ (exponent - digits.length)

theorem magnitude_nonneg (digits : List Nat) (exponent : Int) :
    0 ≤ magnitude K base digits exponent :=
  mul_nonneg (Nat.cast_nonneg _) (zpow_nonneg (Nat.cast_nonneg _) _)

theorem magnitude_eq_zero_iff {digits : List Nat} (canonical : Canonical base digits)
    (above : 1 < base) (exponent : Int) :
    magnitude K base digits exponent = 0 ↔ digits = [] := by
  have positive : (0 : K) < base := by exact_mod_cast Nat.zero_lt_of_lt above
  rw [magnitude, mul_eq_zero, or_iff_left (zpow_pos positive _).ne', Nat.cast_eq_zero]
  constructor
  · exact canonical.eq_nil above
  · rintro rfl
    rfl

/-- The digits and the exponent of a number other than zero. -/
theorem magnitude_injective {digits others : List Nat} {exponent otherExponent : Int}
    (above : 1 < base) (canonical : Canonical base digits) (other : Canonical base others)
    (some_ : digits ≠ [])
    (same : magnitude K base digits exponent = magnitude K base others otherExponent) :
    digits = others ∧ exponent = otherExponent := by
  have otherSome : others ≠ [] := by
    rwa [Ne, ← magnitude_eq_zero_iff (K := K) other above otherExponent, ← same,
      magnitude_eq_zero_iff canonical above]
  have scale : exponent - digits.length = otherExponent - others.length :=
    le_antisymm (exponent_le above (other.not_dvd otherSome) same.symm)
      (exponent_le above (canonical.not_dvd some_) same)
  have positive : (0 : K) < base := by exact_mod_cast Nat.zero_lt_of_lt above
  rw [magnitude, magnitude, scale] at same
  have mantissa := mul_right_cancel₀ (zpow_pos positive _).ne' same
  have equal := canonical.injective other above (by exact_mod_cast mantissa)
  rw [equal] at scale
  exact ⟨equal, by omega⟩

/-- ±0.d₁d₂… · baseᵉˣᵖᵒⁿᵉⁿᵗ. -/
def value (base : Nat) (negative : Bool) (digits : List Nat) (exponent : Int) : K :=
  signed negative (magnitude K base digits exponent)

/-- A number has one form: its digits, and behind them its sign and exponent unless it is zero. -/
theorem value_injective {digits others : List Nat} {negative otherNegative : Bool}
    {exponent otherExponent : Int} (above : 1 < base) (canonical : Canonical base digits)
    (other : Canonical base others)
    (same : (value base negative digits exponent : K) =
      value base otherNegative others otherExponent) :
    digits = others ∧ (digits ≠ [] → negative = otherNegative ∧ exponent = otherExponent) := by
  obtain ⟨equal, sign⟩ := signed_injective (magnitude_nonneg _ _) (magnitude_nonneg _ _) same
  by_cases none_ : digits = []
  · have zero := (magnitude_eq_zero_iff (K := K) canonical above exponent).mpr none_
    rw [equal, magnitude_eq_zero_iff other above] at zero
    exact ⟨none_.trans zero.symm, fun some_ => absurd none_ some_⟩
  · obtain ⟨sameDigits, sameExponent⟩ := magnitude_injective above canonical other none_ equal
    have nonzero := mt (magnitude_eq_zero_iff (K := K) canonical above exponent).mp none_
    exact ⟨sameDigits, fun _ => ⟨sign nonzero, sameExponent⟩⟩

end Values

end TellyDB.Lib.Floating
