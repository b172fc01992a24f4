import Mathlib.Data.List.Basic

/-!
Owns memory by address: what a load finds in and beside what was stored.
-/

namespace TellyDB.Lib.ByteMemory

variable {α : Type*}

/-- Some values from an address on. -/
def load (memory : Nat → α) (address width : Nat) : List α :=
  (List.range' address width).map memory

/-- The values replace what lies from an address on. -/
def store (memory : Nat → α) (address : Nat) (values : List α) : Nat → α := fun place =>
  if address ≤ place then (values[place - address]?).getD (memory place) else memory place

@[simp] theorem length_load (memory : Nat → α) (address width : Nat) :
    (load memory address width).length = width := by
  rw [load, List.length_map, List.length_range']

theorem load_one (memory : Nat → α) (address : Nat) :
    load memory address 1 = [memory address] := rfl

theorem load_add (memory : Nat → α) (address first second : Nat) :
    load memory address (first + second) =
      load memory address first ++ load memory (address + first) second := by
  rw [load, load, load, ← List.map_append, ← List.range'_append_1]

section Stored

variable {memory : Nat → α} {address : Nat} {values : List α}

theorem store_beside {place : Nat} (beside : place < address ∨ address + values.length ≤ place) :
    store memory address values place = memory place := by
  rw [store]
  split
  · next behind =>
      have gone : values[place - address]? = none := List.getElem?_eq_none (by omega)
      rw [gone]
      rfl
  · rfl

theorem store_inside {index : Nat} {value : α} (found : values[index]? = some value) :
    store memory address values (address + index) = value := by
  rw [store, if_pos (Nat.le_add_right _ _), Nat.add_sub_cancel_left, found]
  rfl

/-- What is loaded beside the values is what was there before. -/
theorem load_store_beside {start width : Nat}
    (beside : start + width ≤ address ∨ address + values.length ≤ start) :
    load (store memory address values) start width = load memory start width := by
  refine List.map_congr_left fun place member => store_beside ?_
  rw [List.mem_range'_1] at member
  omega

/-- What is loaded inside of the values is a part of them. -/
theorem load_store_inside {skip width : Nat} (inside : skip + width ≤ values.length) :
    load (store memory address values) (address + skip) width =
      (values.drop skip).take width := by
  apply List.ext_getElem
  · rw [length_load, List.length_take, List.length_drop]
    omega
  · intro index short bound
    rw [length_load] at short
    have found : values[skip + index]? = some values[skip + index] :=
      List.getElem?_eq_getElem (by omega)
    rw [List.getElem_take, List.getElem_drop]
    simp only [load, List.getElem_map, List.getElem_range', Nat.one_mul, Nat.add_assoc]
    exact store_inside found

end Stored

end TellyDB.Lib.ByteMemory
