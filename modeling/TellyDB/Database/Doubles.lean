import TellyDB.Database.Values
import TellyDB.Lib.Floating

/-!
Owns the rational that a double is.
-/

namespace TellyDB.Database

open Lib.Floating Lib.Positional

/-- ±0.d₁d₂… · 16^exponent. -/
def Double.value (double : Double) : ℚ :=
  Lib.Floating.value 16 double.negative (double.digits.map Fin.val) double.exponent

theorem Double.canonical (double : Double) : Canonical 16 (double.digits.map Fin.val) := by
  constructor
  · intro digit member
    obtain ⟨hex, _, rfl⟩ := List.mem_map.mp member
    exact hex.isLt
  · intro zero
    rw [List.head?_map, Option.map_eq_some_iff] at zero
    obtain ⟨hex, first, same⟩ := zero
    rw [Fin.val_eq_zero_iff.mp same] at first
    exact double.leading first
  · intro zero
    rw [List.getLast?_map, Option.map_eq_some_iff] at zero
    obtain ⟨hex, last, same⟩ := zero
    rw [Fin.val_eq_zero_iff.mp same] at last
    exact double.trailing last

theorem Double.value_injective : Function.Injective Double.value := by
  intro first second same
  obtain ⟨digits, signs⟩ := Lib.Floating.value_injective (by decide) first.canonical
    second.canonical same
  have digits_ := List.map_injective_iff.mpr Fin.val_injective digits
  by_cases none_ : first.digits = []
  · obtain ⟨sign, exponent⟩ := first.zero none_
    obtain ⟨otherSign, otherExponent⟩ := second.zero (digits_ ▸ none_)
    exact Double.ext (sign.trans otherSign.symm) digits_ (exponent.trans otherExponent.symm)
  · obtain ⟨sign, exponent⟩ := signs (mt List.map_eq_nil_iff.mp none_)
    exact Double.ext sign digits_ exponent

/-- A double can hold this rational. -/
def IsDouble (number : ℚ) : Prop := ∃ double : Double, double.value = number

theorem signed_not (negative : Bool) (number : ℚ) :
    signed (!negative) number = -signed negative number := by
  cases negative <;> simp [signed]

/-- The sign of a double can be turned. -/
theorem IsDouble.neg {number : ℚ} (holds : IsDouble number) : IsDouble (-number) := by
  obtain ⟨double, rfl⟩ := holds
  by_cases none_ : double.digits = []
  · refine ⟨double, ?_⟩
    rw [Double.value, Lib.Floating.value, none_, List.map_nil, magnitude, ofBigEndian_nil]
    simp [signed]
  · let turned : Double := ⟨!double.negative, double.digits, double.exponent, double.leading,
      double.trailing, fun nothing => absurd nothing none_, double.short⟩
    exact ⟨turned, signed_not double.negative _⟩

/-- A double of this value, where there is one. -/
noncomputable def doubleOf (number : ℚ) (zero : Double) : Double :=
  open Classical in if holds : IsDouble number then holds.choose else zero

theorem value_doubleOf {number : ℚ} (holds : IsDouble number) (zero : Double) :
    (doubleOf number zero).value = number := by
  rw [doubleOf, dif_pos holds]
  exact holds.choose_spec

end TellyDB.Database
