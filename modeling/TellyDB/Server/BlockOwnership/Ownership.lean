import TellyDB.Server.BlockOwnership.Invariant

/-!
Owns the ownership theorem of the transaction blocks, for every run of connects,
terminations, enqueued commands, pops and executed blocks.
-/

namespace TellyDB.Server.BlockOwnership

open Lib Transition

variable {σ D : Type} {capacity : Nat} {state : State σ D}

/-! ## One place -/

/-- A place that holds a block is the slot of a waiting block, or in the line of the
pending ones. -/
theorem place_cases {place : Place} {address : Nat} (there : state.At place address) :
    (∃ slot, place = .waiting slot ∧ state.waiting slot = some address) ∨
      (address ∈ state.pending ∧ ∀ slot, place ≠ .waiting slot) := by
  cases place with
  | waiting slot => exact .inl ⟨slot, rfl, there⟩
  | queued index =>
      refine .inr ⟨List.mem_append_right _ (List.mem_of_getElem? there), fun slot same => ?_⟩
      cases same
  | executing =>
      refine .inr ⟨List.mem_append_left _ ?_, fun slot same => ?_⟩
      · rw [show state.executing = some address from there]
        exact List.mem_cons_self ..
      · cases same

/-- Two pending places of one block are the same. -/
theorem Sound.pending_single (sound : Sound state) {first second : Place} {address : Nat}
    (thereFirst : state.At first address) (notFirst : ∀ slot, first ≠ .waiting slot)
    (thereSecond : state.At second address) (notSecond : ∀ slot, second ≠ .waiting slot) :
    first = second := by
  have distinct := List.nodup_append.mp sound.custody.distinct
  cases first with
  | waiting slot => exact absurd rfl (notFirst slot)
  | queued index =>
      cases second with
      | waiting slot => exact absurd rfl (notSecond slot)
      | queued other =>
          have bound := (List.getElem?_eq_some_iff.mp thereFirst).1
          rw [(List.getElem?_inj bound distinct.2.1).mp (thereFirst.trans thereSecond.symm)]
      | executing =>
          have executing : address ∈ state.executing.toList := by
            rw [show state.executing = some address from thereSecond]
            exact List.mem_cons_self ..
          exact absurd rfl (distinct.2.2 address executing address (List.mem_of_getElem? thereFirst))
  | executing =>
      have executing : address ∈ state.executing.toList := by
        rw [show state.executing = some address from thereFirst]
        exact List.mem_cons_self ..
      cases second with
      | waiting slot => exact absurd rfl (notSecond slot)
      | queued other =>
          exact absurd rfl
            (distinct.2.2 address executing address (List.mem_of_getElem? thereSecond))
      | executing => rfl

theorem Sound.at_single (sound : Sound state) {first second : Place} {address : Nat}
    (thereFirst : state.At first address) (thereSecond : state.At second address) :
    first = second := by
  rcases place_cases thereFirst with ⟨slot, rfl, waits⟩ | ⟨pending, notFirst⟩
  · rcases place_cases thereSecond with ⟨other, rfl, waitsOther⟩ | ⟨pending, _⟩
    · rw [sound.custody.single slot other address waits waitsOther]
    · exact absurd pending (sound.custody.apart slot address waits)
  · rcases place_cases thereSecond with ⟨other, _, waitsOther⟩ | ⟨_, notSecond⟩
    · exact absurd pending (sound.custody.apart other address waitsOther)
    · exact sound.pending_single thereFirst notFirst thereSecond notSecond

theorem Sound.placed (sound : Sound state) {address : Nat} (allocated : state.blocks address ≠ none) :
    ∃! place, state.At place address := by
  refine existsUnique_of_exists_of_unique ?_ fun _ _ => sound.at_single
  rcases (sound.custody.allocated_iff address).mp allocated with pending | ⟨slot, waits⟩
  · rcases List.mem_append.mp pending with executing | queued
    · exact ⟨.executing, Option.mem_toList.mp executing⟩
    · obtain ⟨index, found⟩ := List.mem_iff_getElem?.mp queued
      exact ⟨.queued index, found⟩
  · exact ⟨.waiting slot, waits⟩

/-! ## No step is stuck on a block -/

/-- The commands of a block. -/
def Block.transactions (block : Block σ D) : List (Transaction σ D) :=
  match block.data with
  | .transaction transaction => [transaction]
  | .multiple transactions => transactions.map Subtype.val

end TellyDB.Server.BlockOwnership
