import Mathlib.Algebra.BigOperators.Group.Finset.Basic
import Mathlib.Algebra.Order.BigOperators.Group.Finset
import TellyDB.Lib.Circular
import TellyDB.Lib.SlotArray

/-!
Owns the theory of linear probing over a ring of slots: the placement
invariant (no free slot between an entry's home and the entry), how it is kept
by filling the first free slot of a probe, and the backward-shift repair after
an entry is removed, with the measure that makes the repair end.
-/

namespace TellyDB.Lib.LinearProbing

open Circular

variable {α : Type*} {capacity : Nat} {home : α → Nat} {slots : Nat → Option α}

/-- Every slot a probe for `entry` visits before `position` is occupied. -/
def ClearPath (capacity : Nat) (home : α → Nat) (slots : Nat → Option α) (entry : α)
    (position : Nat) : Prop :=
  ∀ steps < offset capacity (home entry) position,
    slots (place capacity (home entry) steps) ≠ none

/-- The placement invariant: a probe from its home reaches every entry. -/
def Probed (capacity : Nat) (home : α → Nat) (slots : Nat → Option α) : Prop :=
  ∀ position < capacity, ∀ entry, slots position = some entry →
    ClearPath capacity home slots entry position

/-- The placement invariant with one slot, the hole, left out of account. -/
def ProbedAround (capacity : Nat) (home : α → Nat) (slots : Nat → Option α)
    (hole : Nat) : Prop :=
  ∀ position < capacity, ∀ entry, slots position = some entry →
    ∀ steps < offset capacity (home entry) position,
      slots (place capacity (home entry) steps) ≠ none ∨
        place capacity (home entry) steps = hole

theorem probed_free (capacity : Nat) (home : α → Nat) :
    Probed capacity home (fun _ => none) := by
  intro position _ entry held
  cases held

/-- Filling a free slot that a probe reaches keeps the invariant. -/
theorem Probed.fill {position : Nat} {entry : α} (probed : Probed capacity home slots)
    (free : slots position = none) (path : ClearPath capacity home slots entry position) :
    Probed capacity home (Function.update slots position (some entry)) := by
  have grows : ∀ other, slots other ≠ none →
      Function.update slots position (some entry) other ≠ none := by
    intro other held
    by_cases same : other = position
    · subst same
      simp
    · rwa [Function.update_of_ne same]
  intro other bound moved held steps short
  by_cases same : other = position
  · subst same
    rw [Function.update_self] at held
    obtain rfl := Option.some.inj held
    exact grows _ (path steps short)
  · rw [Function.update_of_ne same] at held
    exact grows _ (probed other bound moved held steps short)

/-! ## Backward shift -/

/-- The state of a repair: `hole` is free, every probe is clear except perhaps
at the hole, and the entries on the arc from the hole to `current` do not
probe through the hole. -/
structure Shifting (capacity : Nat) (home : α → Nat) (slots : Nat → Option α)
    (hole current : Nat) : Prop where
  holeBound : hole < capacity
  currentBound : current < capacity
  free : slots hole = none
  around : ProbedAround capacity home slots hole
  scanned : ∀ position < capacity, InArc capacity hole current position →
    ∀ entry, slots position = some entry → InArc capacity hole position (home entry)

/-- Removing an entry starts a repair at its slot. -/
theorem Shifting.start {hole : Nat} (probed : Probed capacity home slots)
    (bound : hole < capacity) :
    Shifting capacity home (Function.update slots hole none) hole hole where
  holeBound := bound
  currentBound := bound
  free := Function.update_self ..
  around := by
    intro position below entry held steps short
    have kept : position ≠ hole := by
      rintro rfl
      simp at held
    rw [Function.update_of_ne kept] at held
    by_cases atHole : place capacity (home entry) steps = hole
    · exact Or.inr atHole
    · rw [Function.update_of_ne atHole]
      exact Or.inl (probed position below entry held steps short)
  scanned := by
    intro position _ arc
    have empty := arc.2
    rw [offset_self bound] at empty
    exact absurd arc.1 (by omega)

/-- The slot after `current`, as an offset from the hole: one more step, or
back at the hole. -/
theorem offset_next {hole current : Nat} (holeBound : hole < capacity)
    (currentBound : current < capacity) :
    offset capacity hole ((current + 1) % capacity) =
      (offset capacity hole current + 1) % capacity := by
  have reached := place_offset holeBound currentBound
  have next : (current + 1) % capacity =
      place capacity hole (offset capacity hole current + 1) := by
    rw [place_succ, reached]
  have below := offset_lt (by omega : 0 < capacity) hole current
  rw [next]
  by_cases wraps : offset capacity hole current + 1 = capacity
  · have whole : place capacity hole capacity = hole := by
      simp [place, Nat.mod_eq_of_lt holeBound]
    rw [wraps, whole, offset_self holeBound, Nat.mod_self]
  · rw [offset_place holeBound (by omega), Nat.mod_eq_of_lt (by omega)]

/-- When the next slot is free the repair is complete. -/
theorem Shifting.finish {hole current : Nat}
    (shifting : Shifting capacity home slots hole current)
    (homeBound : ∀ entry, home entry < capacity)
    (stop : slots ((current + 1) % capacity) = none) :
    Probed capacity home slots := by
  obtain ⟨holeBound, currentBound, free, around, scanned⟩ := shifting
  have positive : 0 < capacity := by omega
  intro position bound entry held steps short
  rcases around position bound entry held steps short with occupied | atHole
  · exact occupied
  by_cases direct : InArc capacity hole position (home entry)
  · exact absurd atHole
      (place_ne_start holeBound bound (homeBound entry) direct short)
  -- The probe passes the hole, so it also passes the free slot after `current`.
  exfalso
  have kept : position ≠ hole := by
    rintro rfl
    rw [free] at held
    cases held
  have unscanned : ¬ InArc capacity hole current position :=
    fun arc => direct (scanned position bound arc entry held)
  have away : 0 < offset capacity hole position :=
    Nat.pos_of_ne_zero fun zero => kept ((offset_eq_zero holeBound bound).mp zero)
  have beyond : offset capacity hole current < offset capacity hole position := by
    by_contra notBeyond
    exact unscanned ⟨away, by omega⟩
  have below := offset_lt positive hole position
  have next : offset capacity hole ((current + 1) % capacity) =
      offset capacity hole current + 1 :=
    (offset_next holeBound currentBound).trans (Nat.mod_eq_of_lt (by omega))
  have nextBound : (current + 1) % capacity < capacity := Nat.mod_lt _ positive
  have notLast : (current + 1) % capacity ≠ position := by
    intro same
    rw [same, held] at stop
    cases stop
  have notEqual : offset capacity hole ((current + 1) % capacity) ≠
      offset capacity hole position := by
    intro same
    have places := congrArg (place capacity hole) same
    rw [place_offset holeBound nextBound, place_offset holeBound bound] at places
    exact notLast places
  have through := offset_through_start holeBound bound (homeBound entry) direct
  have visited := around position bound entry held
    (offset capacity (home entry) hole + (offset capacity hole current + 1)) (by omega)
  rw [← place_place, place_offset (homeBound entry) holeBound, ← next,
    place_offset holeBound nextBound, stop] at visited
  rcases visited with occupied | returned
  · exact occupied rfl
  · rw [returned, offset_self holeBound] at next
    omega

/-- An entry whose home lies on the arc from the hole may stay. -/
theorem Shifting.advance {hole current : Nat} {entry : α}
    (shifting : Shifting capacity home slots hole current)
    (held : slots ((current + 1) % capacity) = some entry)
    (stays : InArc capacity hole ((current + 1) % capacity) (home entry)) :
    Shifting capacity home slots hole ((current + 1) % capacity) := by
  obtain ⟨holeBound, currentBound, free, around, scanned⟩ := shifting
  have positive : 0 < capacity := by omega
  refine ⟨holeBound, Nat.mod_lt _ positive, free, around, ?_⟩
  intro position bound arc other found
  by_cases same : position = (current + 1) % capacity
  · subst same
    rw [held] at found
    obtain rfl := Option.some.inj found
    exact stays
  · apply scanned position bound ⟨arc.1, ?_⟩ other found
    have next := offset_next holeBound currentBound
    have nextBound : (current + 1) % capacity < capacity := Nat.mod_lt _ positive
    have apart : offset capacity hole position ≠
        offset capacity hole ((current + 1) % capacity) := by
      intro equal
      have places := congrArg (place capacity hole) equal
      rw [place_offset holeBound bound, place_offset holeBound nextBound] at places
      exact same places
    have upper := arc.2
    have small := Nat.mod_le (offset capacity hole current + 1) capacity
    omega

/-- An entry whose home lies off the arc moves into the hole and leaves a new
hole behind. -/
theorem Shifting.move {hole next : Nat} {entry : α}
    (homeBound : ∀ entry, home entry < capacity)
    (holeBound : hole < capacity) (nextBound : next < capacity)
    (free : slots hole = none) (around : ProbedAround capacity home slots hole)
    (held : slots next = some entry)
    (leaves : ¬ InArc capacity hole next (home entry)) :
    Shifting capacity home
      (Function.update (Function.update slots hole (some entry)) next none) next next := by
  have distinct : hole ≠ next := by
    rintro rfl
    rw [free] at held
    cases held
  refine ⟨nextBound, nextBound, Function.update_self .., ?_, ?_⟩
  · intro position bound other found steps short
    by_cases atNext : place capacity (home other) steps = next
    · exact Or.inr atNext
    left
    rw [Function.update_of_ne atNext]
    by_cases atHole : place capacity (home other) steps = hole
    · rw [atHole, Function.update_self]
      simp
    rw [Function.update_of_ne atHole]
    have kept : position ≠ next := by
      rintro rfl
      simp at found
    rw [Function.update_of_ne kept] at found
    by_cases refilled : position = hole
    · -- The moved entry: its new probe is the first part of its old one.
      subst refilled
      rw [Function.update_self] at found
      obtain rfl := Option.some.inj found
      have through := offset_through_start holeBound nextBound (homeBound entry) leaves
      exact (around next nextBound entry held steps (by omega)).resolve_right atHole
    · rw [Function.update_of_ne refilled] at found
      exact (around position bound other found steps short).resolve_right atHole
  · intro position _ arc
    have empty := arc.2
    rw [offset_self nextBound] at empty
    exact absurd arc.1 (by omega)

/-! ## The repair ends -/

/-- How far the entries are from their homes, all together. -/
def displacement (capacity : Nat) (home : α → Nat) (slots : Nat → Option α) : Nat :=
  ∑ position ∈ Finset.range capacity,
    (slots position).elim 0 fun entry => offset capacity (home entry) position

theorem displacement_le (capacity : Nat) (home : α → Nat) (slots : Nat → Option α) :
    displacement capacity home slots ≤ capacity * capacity := by
  have each : ∀ position ∈ Finset.range capacity,
      (slots position).elim 0 (fun entry => offset capacity (home entry) position) ≤ capacity := by
    intro position member
    have positive : 0 < capacity := Nat.lt_of_le_of_lt (Nat.zero_le _) (Finset.mem_range.mp member)
    cases slots position with
    | none => exact Nat.zero_le _
    | some entry => exact Nat.le_of_lt (offset_lt positive _ _)
  calc displacement capacity home slots
      ≤ (Finset.range capacity).card • capacity := Finset.sum_le_card_nsmul _ _ _ each
    _ = capacity * capacity := by rw [Finset.card_range]; rfl

/-- Moving an entry into the hole its probe passes lessens the displacement. -/
theorem displacement_move {hole next : Nat} {entry : α}
    (homeBound : ∀ entry, home entry < capacity)
    (holeBound : hole < capacity) (nextBound : next < capacity)
    (free : slots hole = none) (held : slots next = some entry)
    (leaves : ¬ InArc capacity hole next (home entry)) :
    displacement capacity home
        (Function.update (Function.update slots hole (some entry)) next none) <
      displacement capacity home slots := by
  have distinct : hole ≠ next := by
    rintro rfl
    rw [free] at held
    cases held
  have through := offset_through_start holeBound nextBound (homeBound entry) leaves
  have apart : 0 < offset capacity hole next :=
    Nat.pos_of_ne_zero fun zero => distinct ((offset_eq_zero holeBound nextBound).mp zero).symm
  unfold displacement
  have holeMember : hole ∈ Finset.range capacity := Finset.mem_range.mpr holeBound
  have nextMember : next ∈ (Finset.range capacity).erase hole :=
    Finset.mem_erase.mpr ⟨distinct.symm, Finset.mem_range.mpr nextBound⟩
  rw [← Finset.add_sum_erase _ _ holeMember, ← Finset.add_sum_erase _ _ nextMember,
    ← Finset.add_sum_erase _ _ holeMember, ← Finset.add_sum_erase _ _ nextMember]
  have rest : ∀ position ∈ ((Finset.range capacity).erase hole).erase next,
      Function.update (Function.update slots hole (some entry)) next none position =
        slots position := by
    intro position member
    rw [Finset.mem_erase, Finset.mem_erase] at member
    rw [Function.update_of_ne member.1, Function.update_of_ne member.2.1]
  rw [Finset.sum_congr rfl fun position member => by rw [rest position member]]
  simp only [Function.update_of_ne distinct, Function.update_self, free, held,
    Option.elim_some, Option.elim_none]
  omega

end TellyDB.Lib.LinearProbing
