import Mathlib.Algebra.BigOperators.Group.Finset.Basic
import Mathlib.Data.Finset.Card
import Mathlib.Data.Fintype.Basic

/-!
Owns tallies: how many members of a finite type satisfy a property that changes
at one member at a time, and what they weigh together.
-/

namespace TellyDB.Lib

variable {ι : Type*} [Fintype ι]

/-- The number of members that satisfy a property. -/
def tally (property : ι → Prop) [DecidablePred property] : Nat :=
  (Finset.univ.filter property).card

section Tally

variable (before after : ι → Prop) [DecidablePred before] [DecidablePred after]

variable {before} in
theorem tally_eq_zero_iff : tally before = 0 ↔ ∀ member, ¬before member := by
  rw [tally, Finset.card_eq_zero, Finset.filter_eq_empty_iff]
  exact ⟨fun none member => none (Finset.mem_univ member), fun none member _ => none member⟩

variable {before} in
theorem tally_eq_zero (none : ∀ member, ¬before member) : tally before = 0 :=
  tally_eq_zero_iff.mpr none

theorem tally_erase [DecidableEq ι] (member : ι) :
    tally before =
      ((Finset.univ.erase member).filter before).card + if before member then 1 else 0 := by
  have whole : (Finset.univ : Finset ι) = insert member (Finset.univ.erase member) :=
    (Finset.insert_erase (Finset.mem_univ member)).symm
  have apart : member ∉ (Finset.univ.erase member).filter before := by
    simp
  rw [tally, whole, Finset.filter_insert]
  split
  · rw [Finset.card_insert_of_notMem apart, Finset.erase_insert_eq_erase, Finset.erase_idem]
  · rw [Finset.erase_insert_eq_erase, Finset.erase_idem, Nat.add_zero]

/-- Only one member changed. -/
theorem tally_changed [DecidableEq ι] {member : ι}
    (others : ∀ other, other ≠ member → (before other ↔ after other)) :
    tally after + (if before member then 1 else 0) =
      tally before + if after member then 1 else 0 := by
  have rest : (Finset.univ.erase member).filter before =
      (Finset.univ.erase member).filter after :=
    Finset.filter_congr fun other member => others other (Finset.ne_of_mem_erase member)
  rw [tally_erase after member, tally_erase before member, rest]
  omega

end Tally

/-! ## Weights -/

section Weights

variable {S M : Type*} [AddCommMonoid M]

/-- What all members weigh in the states they are in. -/
def weight (weigh : S → M) (states : ι → S) : M := ∑ member, weigh (states member)

/-- One member moves from one state to another. -/
theorem weight_update [DecidableEq ι] (weigh : S → M) (states : ι → S) (member : ι) (next : S) :
    weight weigh (Function.update states member next) + weigh (states member) =
      weight weigh states + weigh next := by
  have rest : ∑ other ∈ Finset.univ.erase member, weigh (Function.update states member next other)
      = ∑ other ∈ Finset.univ.erase member, weigh (states other) := by
    refine Finset.sum_congr rfl fun other inRest => ?_
    rw [Function.update_of_ne (Finset.ne_of_mem_erase inRest)]
  rw [weight, weight, ← Finset.sum_erase_add _ _ (Finset.mem_univ member), rest,
    ← Finset.sum_erase_add _ (fun other => weigh (states other)) (Finset.mem_univ member),
    Function.update_self, add_right_comm]

theorem weight_eq_zero {weigh : S → M} {states : ι → S}
    (nothing : ∀ member, weigh (states member) = 0) : weight weigh states = 0 :=
  Finset.sum_eq_zero fun member _ => nothing member

end Weights

end TellyDB.Lib
