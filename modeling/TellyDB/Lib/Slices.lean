import Mathlib.Data.List.Basic

/-!
Owns slices of a list by position and length, and copies of one list into
another at a position.
-/

namespace TellyDB.Lib.Slices

variable {α : Type*}

/-- `count` elements from `start` on, fewer where the list ends before. -/
def slice (list : List α) (start count : Nat) : List α := (list.drop start).take count

@[simp] theorem slice_zero (list : List α) (start : Nat) : slice list start 0 = [] := rfl

theorem length_slice {list : List α} {start count : Nat} (inside : start + count ≤ list.length) :
    (slice list start count).length = count := by
  rw [slice, List.length_take, List.length_drop]
  omega

/-- Consecutive slices are one slice. -/
theorem slice_append (list : List α) (start first second : Nat) :
    slice list start first ++ slice list (start + first) second =
      slice list start (first + second) := by
  rw [slice, slice, slice, List.take_add, List.drop_drop]

/-- A slice within a prefix does not depend on the rest. -/
theorem slice_of_prefix {short long : List α} (isPrefix : short <+: long) {start count : Nat}
    (inside : start + count ≤ short.length) : slice long start count = slice short start count := by
  rcases isPrefix with ⟨rest, rfl⟩
  rw [slice, slice, List.drop_append_of_le_length (by omega),
    List.take_append_of_le_length (by rw [List.length_drop]; omega)]

theorem slice_drop (list : List α) (base start count : Nat) :
    slice (list.drop base) start count = slice list (base + start) count := by
  rw [slice, slice, List.drop_drop]

theorem slice_take {list : List α} {size start count : Nat} (inside : start + count ≤ size) :
    slice (list.take size) start count = slice list start count := by
  rw [slice, slice, List.drop_take, List.take_take, Nat.min_eq_left (by omega)]

/-- A slice of a slice. -/
theorem slice_slice {list : List α} {base size start count : Nat} (inside : start + count ≤ size) :
    slice (slice list base size) start count = slice list (base + start) count := by
  rw [show slice list base size = (list.drop base).take size from rfl, slice_take inside,
    slice_drop]

/-! ## Copies -/

/-- `list` with the elements from `start` on replaced by `part`. -/
def splice (list : List α) (start : Nat) (part : List α) : List α :=
  list.take start ++ part ++ list.drop (start + part.length)

/-- Copies `count` elements of `source` into `target`, unless that leaves either of them. -/
def copy (target : List α) (targetStart : Nat) (source : List α) (sourceStart count : Nat) :
    Option (List α) :=
  if targetStart + count ≤ target.length ∧ sourceStart + count ≤ source.length then
    some (splice target targetStart (slice source sourceStart count))
  else none

theorem copy_eq_some {target source : List α} {targetStart sourceStart count : Nat}
    (inTarget : targetStart + count ≤ target.length)
    (inSource : sourceStart + count ≤ source.length) :
    copy target targetStart source sourceStart count =
      some (splice target targetStart (slice source sourceStart count)) :=
  if_pos ⟨inTarget, inSource⟩

theorem length_splice {list part : List α} {start : Nat}
    (inside : start + part.length ≤ list.length) : (splice list start part).length = list.length := by
  rw [splice, List.length_append, List.length_append, List.length_take, List.length_drop]
  omega

/-- Up to the end of the copied part. -/
theorem take_splice {list part : List α} {start : Nat} (inside : start ≤ list.length) :
    (splice list start part).take (start + part.length) = list.take start ++ part := by
  rw [splice]
  apply List.take_left'
  rw [List.length_append, List.length_take, Nat.min_eq_left inside]

/-! ## Writes -/

/-- Writes `part` at a position, unless that leaves the list. -/
def put (list : List α) (position : Int) (part : List α) : Option (List α) :=
  if 0 ≤ position ∧ position + part.length ≤ list.length then
    some (splice list position.toNat part)
  else none

/-- A write behind a known front. -/
theorem put_append {rest part : List α} {position : Int} (front : List α)
    (here : position = front.length) (room : part.length ≤ rest.length) :
    put (front ++ rest) position part = some (front ++ part ++ rest.drop part.length) := by
  subst here
  rw [put, if_pos]
  · rw [splice, Int.toNat_natCast, List.take_left, ← List.drop_drop, List.drop_left]
  · rw [List.length_append]
    omega

/-- A write of the first elements. -/
theorem put_zero {list part : List α} (room : part.length ≤ list.length) :
    put list 0 part = some (part ++ list.drop part.length) := by
  have written := put_append [] rfl room
  rwa [List.nil_append, List.nil_append] at written

/-- A write extends what is known of the front. -/
theorem put_take (list part : List α) (position : Int) (count : Nat) (here : position = count)
    (room : count + part.length ≤ list.length) :
    ∃ after, put list position part = some after ∧ after.length = list.length ∧
      after.take (count + part.length) = list.take count ++ part := by
  subst here
  refine ⟨splice list count part, ?_, length_splice room, take_splice (by omega)⟩
  rw [put, if_pos (by omega), Int.toNat_natCast]

/-- A write stays in the list, and keeps its length. -/
theorem put_inside {list part after : List α} {position : Int}
    (written : put list position part = some after) :
    0 ≤ position ∧ position + part.length ≤ list.length ∧ after.length = list.length := by
  rw [put] at written
  split at written
  · next inside =>
      cases written
      exact ⟨inside.1, inside.2, length_splice (by omega)⟩
  · cases written

/-- A write before the first element leaves the list. -/
theorem put_negative {list part : List α} {position : Int} (before : position < 0) :
    put list position part = none :=
  if_neg fun inside => absurd inside.1 (Int.not_le.mpr before)

end TellyDB.Lib.Slices
