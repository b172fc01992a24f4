import Mathlib.Data.Nat.ModEq
import Mathlib.Tactic.Linarith

/-!
Owns the arithmetic of positions on a ring of `capacity` slots: the position
reached after some steps from a start, the offset that leads from one position
to another, and the half-open arc between two positions. Nothing here knows
what the slots hold.
-/

namespace TellyDB.Lib.Circular

/-- The position reached from `start` after `offset` steps. -/
def place (capacity start offset : Nat) : Nat := (start + offset) % capacity

/-- The number of steps from `start` to `position`. -/
def offset (capacity start position : Nat) : Nat :=
  (position + (capacity - start)) % capacity

/-- `position` lies on the arc after `start` up to and including `stop`. -/
def InArc (capacity start stop position : Nat) : Prop :=
  0 < offset capacity start position ∧
    offset capacity start position ≤ offset capacity start stop

theorem mod_eq_ite {capacity value : Nat} (bound : value < 2 * capacity) :
    value % capacity = if value < capacity then value else value - capacity := by
  split_ifs with small
  · exact Nat.mod_eq_of_lt small
  · rw [Nat.mod_eq_sub_mod (by omega)]
    exact Nat.mod_eq_of_lt (by omega)

/-- Two positions less than one turn apart that share a slot are equal. -/
theorem eq_of_mod_eq {capacity left right : Nat} (leftNear : left < right + capacity)
    (rightNear : right < left + capacity) (same : left % capacity = right % capacity) :
    left = right := by
  rcases Nat.le_total left right with ordered | ordered
  · have gap := Nat.sub_mod_eq_zero_of_mod_eq same.symm
    rw [Nat.mod_eq_of_lt (by omega)] at gap
    omega
  · have gap := Nat.sub_mod_eq_zero_of_mod_eq same
    rw [Nat.mod_eq_of_lt (by omega)] at gap
    omega

theorem place_lt {capacity : Nat} (positive : 0 < capacity) (start steps : Nat) :
    place capacity start steps < capacity :=
  Nat.mod_lt _ positive

@[simp] theorem place_zero {capacity start : Nat} (bound : start < capacity) :
    place capacity start 0 = start :=
  Nat.mod_eq_of_lt bound

/-- One more step is the successor modulo the capacity. -/
theorem place_succ (capacity start steps : Nat) :
    place capacity start (steps + 1) = (place capacity start steps + 1) % capacity := by
  simp [place, Nat.add_assoc]

theorem place_place (capacity start first second : Nat) :
    place capacity (place capacity start first) second =
      place capacity start (first + second) := by
  simp [place, Nat.add_assoc]

theorem offset_lt {capacity : Nat} (positive : 0 < capacity) (start position : Nat) :
    offset capacity start position < capacity :=
  Nat.mod_lt _ positive

/-- Walking the offset leads to the position. -/
theorem place_offset {capacity start position : Nat} (startBound : start < capacity)
    (bound : position < capacity) :
    place capacity start (offset capacity start position) = position := by
  unfold place offset
  rw [mod_eq_ite (by omega : position + (capacity - start) < 2 * capacity)]
  split_ifs
  · rw [mod_eq_ite (by omega)]
    split_ifs <;> omega
  · rw [mod_eq_ite (by omega)]
    split_ifs <;> omega

/-- The offset of the position reached after fewer than `capacity` steps is
that number of steps. -/
theorem offset_place {capacity start steps : Nat} (startBound : start < capacity)
    (bound : steps < capacity) :
    offset capacity start (place capacity start steps) = steps := by
  unfold place offset
  rw [mod_eq_ite (by omega : start + steps < 2 * capacity)]
  split_ifs
  · rw [mod_eq_ite (by omega)]
    split_ifs <;> omega
  · rw [mod_eq_ite (by omega)]
    split_ifs <;> omega

theorem place_injective {capacity start first second : Nat} (startBound : start < capacity)
    (firstBound : first < capacity) (secondBound : second < capacity)
    (same : place capacity start first = place capacity start second) : first = second := by
  have offsets := congrArg (offset capacity start) same
  rwa [offset_place startBound firstBound, offset_place startBound secondBound] at offsets

@[simp] theorem offset_self {capacity start : Nat} (bound : start < capacity) :
    offset capacity start start = 0 := by
  have := offset_place bound (by omega : 0 < capacity)
  rwa [place_zero bound] at this

theorem offset_eq_zero {capacity start position : Nat} (startBound : start < capacity)
    (bound : position < capacity) : offset capacity start position = 0 ↔ position = start := by
  constructor
  · intro zero
    have reached := place_offset startBound bound
    rw [zero, place_zero startBound] at reached
    exact reached.symm
  · rintro rfl
    exact offset_self bound

/-- The offset as a comparison of the two positions. -/
theorem offset_eq_ite {capacity start position : Nat} (startBound : start < capacity)
    (bound : position < capacity) :
    offset capacity start position =
      if start ≤ position then position - start else position + capacity - start := by
  unfold offset
  rw [mod_eq_ite (by omega)]
  split_ifs <;> omega

/-- The arc from `start` to `stop`, decided without wrapping arithmetic: a
plain interval when `start ≤ stop`, the complement of one otherwise. -/
theorem inArc_iff {capacity start stop position : Nat} (startBound : start < capacity)
    (stopBound : stop < capacity) (bound : position < capacity) :
    InArc capacity start stop position ↔
      if start ≤ stop then start < position ∧ position ≤ stop
      else start < position ∨ position ≤ stop := by
  unfold InArc
  rw [offset_eq_ite startBound stopBound, offset_eq_ite startBound bound]
  split_ifs <;> omega

/-- A position off the arc from `start` to `stop` reaches `stop` only through
`start`: its offset to `stop` is its offset to `start` and then the arc. -/
theorem offset_through_start {capacity start stop position : Nat} (startBound : start < capacity)
    (stopBound : stop < capacity) (bound : position < capacity)
    (outside : ¬ InArc capacity start stop position) :
    offset capacity position stop =
      offset capacity position start + offset capacity start stop := by
  rw [inArc_iff startBound stopBound bound] at outside
  rw [offset_eq_ite bound stopBound, offset_eq_ite bound startBound,
    offset_eq_ite startBound stopBound]
  split_ifs at outside ⊢ <;> omega

/-- A position on the arc reaches `stop` without passing `start`. -/
theorem place_ne_start {capacity start stop position steps : Nat} (startBound : start < capacity)
    (stopBound : stop < capacity) (bound : position < capacity)
    (inside : InArc capacity start stop position)
    (short : steps < offset capacity position stop) :
    place capacity position steps ≠ start := by
  rw [inArc_iff startBound stopBound bound] at inside
  rw [offset_eq_ite bound stopBound] at short
  unfold place
  rw [mod_eq_ite (by split_ifs at short <;> omega)]
  split_ifs at inside short ⊢ <;> omega

end TellyDB.Lib.Circular
