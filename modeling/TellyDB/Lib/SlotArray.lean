import Mathlib.Data.List.Perm.Basic
import Mathlib.Logic.Function.Basic

/-!
Owns arrays of slots that are free or hold one entry: the list of entries in
slot order, and how filling, emptying and moving one slot changes it.
-/

namespace TellyDB.Lib.SlotArray

variable {α : Type*}

/-- The entries of the first `capacity` slots, in slot order. -/
def entries (slots : Nat → Option α) (capacity : Nat) : List α :=
  (List.range capacity).filterMap slots

@[simp] theorem entries_zero (slots : Nat → Option α) : entries slots 0 = [] := rfl

theorem entries_succ (slots : Nat → Option α) (capacity : Nat) :
    entries slots (capacity + 1) = entries slots capacity ++ (slots capacity).toList := by
  cases last : slots capacity <;>
    simp [entries, List.range_succ, List.filterMap_append, last]

theorem mem_entries {slots : Nat → Option α} {capacity : Nat} {entry : α} :
    entry ∈ entries slots capacity ↔
      ∃ position < capacity, slots position = some entry := by
  simp [entries]

/-- Slots past the end do not matter. -/
theorem entries_congr {left right : Nat → Option α} {capacity : Nat}
    (agree : ∀ position < capacity, left position = right position) :
    entries left capacity = entries right capacity := by
  apply List.filterMap_congr
  intro position member
  exact agree position (List.mem_range.mp member)

@[simp] theorem entries_free (capacity : Nat) :
    entries (fun _ => (none : Option α)) capacity = [] := by
  simp [entries]

/-- Filling a free slot adds its entry. -/
theorem entries_fill {slots : Nat → Option α} {capacity position : Nat}
    (bound : position < capacity) (free : slots position = none) (entry : α) :
    (entries (Function.update slots position (some entry)) capacity).Perm
      (entry :: entries slots capacity) := by
  induction capacity with
  | zero => omega
  | succ capacity inductionHypothesis =>
      rw [entries_succ, entries_succ]
      by_cases last : position = capacity
      · subst last
        have below : entries (Function.update slots position (some entry)) position =
            entries slots position :=
          entries_congr fun other below => Function.update_of_ne (by omega) _ _
        rw [below]
        simp only [Function.update_self, free, Option.toList_some, Option.toList_none,
          List.append_nil]
        exact List.perm_append_singleton entry _
      · rw [Function.update_of_ne (by omega : capacity ≠ position)]
        exact (inductionHypothesis (by omega)).append_right _

/-- Emptying an occupied slot removes exactly its entry. -/
theorem entries_empty {slots : Nat → Option α} {capacity position : Nat} {entry : α}
    (bound : position < capacity) (held : slots position = some entry) :
    (entries slots capacity).Perm
      (entry :: entries (Function.update slots position none) capacity) := by
  have emptied : Function.update slots position none position = none := Function.update_self ..
  have refill := entries_fill bound emptied entry
  rwa [Function.update_idem, ← held, Function.update_eq_self] at refill

/-- Moving an entry to a free slot keeps the entries. -/
theorem entries_move {slots : Nat → Option α} {capacity source target : Nat} {entry : α}
    (sourceBound : source < capacity) (targetBound : target < capacity)
    (held : slots source = some entry) (free : slots target = none) :
    (entries (Function.update (Function.update slots target (some entry)) source none)
      capacity).Perm (entries slots capacity) := by
  have distinct : source ≠ target := by
    rintro rfl
    rw [held] at free
    cases free
  have filled := entries_fill targetBound free entry
  have copied : Function.update slots target (some entry) source = some entry := by
    rw [Function.update_of_ne distinct, held]
  have emptied := entries_empty sourceBound copied
  exact (List.perm_cons entry).mp (emptied.symm.trans filled)

theorem length_entries_le (slots : Nat → Option α) (capacity : Nat) :
    (entries slots capacity).length ≤ capacity := by
  have := List.length_filterMap_le slots (List.range capacity)
  simpa [entries] using this

/-- Fewer entries than slots leave a free slot. -/
theorem exists_free {slots : Nat → Option α} {capacity : Nat}
    (room : (entries slots capacity).length < capacity) :
    ∃ position < capacity, slots position = none := by
  induction capacity with
  | zero => simp at room
  | succ capacity inductionHypothesis =>
      cases last : slots capacity with
      | none => exact ⟨capacity, by omega, last⟩
      | some entry =>
          rw [entries_succ, last] at room
          obtain ⟨position, bound, free⟩ := inductionHypothesis (by simpa using room)
          exact ⟨position, by omega, free⟩

end TellyDB.Lib.SlotArray
