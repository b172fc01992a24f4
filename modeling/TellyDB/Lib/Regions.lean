import Mathlib.Data.List.Basic

/-!
Owns regions of memory: when one lies inside another, and when two have no byte in common.
-/

namespace TellyDB.Lib

/-- As many bytes as `size`, from an address on. -/
structure Region where
  start : Nat
  size : Nat
deriving DecidableEq

namespace Region

/-- The address belongs to the region. -/
def Holds (region : Region) (address : Nat) : Prop :=
  region.start ≤ address ∧ address < region.start + region.size

/-- One region lies inside another. -/
def Within (inner outer : Region) : Prop :=
  outer.start ≤ inner.start ∧ inner.start + inner.size ≤ outer.start + outer.size

/-- Two regions have no byte in common. -/
def Apart (first second : Region) : Prop := ∀ address, first.Holds address → ¬second.Holds address

variable {first second inner outer : Region}

instance : Decidable (inner.Within outer) := inferInstanceAs (Decidable (_ ∧ _))

theorem Apart.symm (apart : first.Apart second) : second.Apart first :=
  fun address held also => apart address also held

/-- A region lies before another. -/
theorem apart_of_before (before : first.start + first.size ≤ second.start) :
    first.Apart second := by
  intro address held also
  unfold Holds at held also
  omega

theorem Within.holds (within : inner.Within outer) {address : Nat} (held : inner.Holds address) :
    outer.Holds address := by
  unfold Within at within
  unfold Holds at held ⊢
  omega

/-- What lies inside regions that are apart is apart. -/
theorem Apart.within {innerFirst innerSecond : Region} (apart : first.Apart second)
    (one : innerFirst.Within first) (other : innerSecond.Within second) :
    innerFirst.Apart innerSecond :=
  fun address held also => apart address (one.holds held) (other.holds also)

theorem Within.size_le (within : inner.Within outer) : inner.size ≤ outer.size := by
  unfold Within at within
  omega

end Region

end TellyDB.Lib
