import TellyDB.Lib.Transition
import Mathlib.Logic.Function.Iterate

/-!
Owns a reader of a store that others change between its turns: what it keeps whatever
the changes are, and how it ends where it is left alone.
-/

namespace TellyDB.Lib.Interleaving

open Transition

variable {σ ρ α : Type*}

/-- Whose turn it is. -/
inductive Turn (α : Type*) where
  | read
  | change (label : α)

/-- A store and its reader. -/
structure Shared (σ ρ : Type*) where
  store : σ
  reader : ρ

section Functions

variable (read : σ → ρ → ρ) (change : σ → α → Option σ)

def step (shared : Shared σ ρ) : Turn α → Option (Shared σ ρ)
  | .read => some { shared with reader := read shared.store shared.reader }
  | .change label => (change shared.store label).map fun store => { shared with store }

/-- A condition on the turns of the reader alone. -/
def OnReads (guard : σ → ρ → Prop) (shared : Shared σ ρ) : Turn α → Prop
  | .read => guard shared.store shared.reader
  | .change _ => True

end Functions

section Rules

variable {read : σ → ρ → ρ} {change : σ → α → Option σ}

/-- What guarded reads and all changes keep, every run with guarded reads keeps. -/
theorem shared_invariant {guard : σ → ρ → Prop} {invariant : σ → ρ → Prop}
    (reads : ∀ store reader, invariant store reader → guard store reader →
      invariant store (read store reader))
    (changes : ∀ store label next reader, change store label = some next →
      invariant store reader → invariant next reader)
    {turns : List (Turn α)} {shared final : Shared σ ρ}
    (initial : invariant shared.store shared.reader)
    (guarded : Guarded (step read change) (OnReads guard) shared turns)
    (ran : run (step read change) shared turns = some final) :
    invariant final.store final.reader := by
  have kept : ∀ (shared : Shared σ ρ) turn next, invariant shared.store shared.reader →
      OnReads guard shared turn → step read change shared turn = some next →
        invariant next.store next.reader := by
    intro shared turn next held allowed stepped
    cases turn with
    | read =>
        cases stepped
        exact reads _ _ held allowed
    | change label =>
        obtain ⟨store, changed, rfl⟩ := Option.map_eq_some_iff.mp stepped
        exact changes _ label _ _ changed held
  exact guarded_run_invariant kept initial guarded ran

/-- What the changes of a run keep, it keeps of its store. -/
theorem store_invariant {invariant : σ → Prop} {turns : List (Turn α)} {shared final : Shared σ ρ}
    (kept : ∀ label, .change label ∈ turns → ∀ store next, invariant store →
      change store label = some next → invariant next)
    (initial : invariant shared.store) (ran : run (step read change) shared turns = some final) :
    invariant final.store := by
  have each : ∀ (shared : Shared σ ρ), ∀ turn ∈ turns, ∀ next, invariant shared.store →
      step read change shared turn = some next → invariant next.store := by
    intro shared turn member next held stepped
    cases turn with
    | read =>
        cases stepped
        exact held
    | change label =>
        obtain ⟨store, changed, rfl⟩ := Option.map_eq_some_iff.mp stepped
        exact kept label member _ _ held changed
  exact @run_invariant_among _ _ _ (fun shared => invariant shared.store) _ _ _ each initial ran

theorem run_read (shared : Shared σ ρ) (rest : List (Turn α)) :
    run (step read change) shared (.read :: rest) =
      run (step read change) ⟨shared.store, read shared.store shared.reader⟩ rest := rfl

theorem run_change {store next : σ} {label : α} (changed : change store label = some next)
    (reader : ρ) (rest : List (Turn α)) :
    run (step read change) ⟨store, reader⟩ (.change label :: rest) =
      run (step read change) ⟨next, reader⟩ rest := by
  rw [run_cons, step, changed]
  rfl

theorem guarded_change {guard : σ → ρ → Prop} {store next : σ} {label : α}
    (changed : change store label = some next) {reader : ρ} {rest : List (Turn α)}
    (later : Guarded (step read change) (OnReads guard) ⟨next, reader⟩ rest) :
    Guarded (step read change) (OnReads guard) ⟨store, reader⟩ (.change label :: rest) := by
  refine ⟨trivial, fun reached stepped => ?_⟩
  rw [step, changed] at stepped
  cases stepped
  exact later

/-- Turns of the reader alone. -/
theorem run_reads (shared : Shared σ ρ) (count : Nat) :
    run (step read change) shared (List.replicate count .read) =
      some { shared with reader := (read shared.store)^[count] shared.reader } := by
  induction count generalizing shared with
  | zero => rfl
  | succ count inductionHypothesis =>
      rw [List.replicate_succ, run_read, Function.iterate_succ_apply]
      exact inductionHypothesis _

/-- A reader that uses up a measure of its own is at its end after as many turns. -/
theorem ends_alone {store : σ} {left : ρ → Nat}
    (falls : ∀ reader, left (read store reader) ≤ left reader - 1) (reader : ρ) {count : Nat}
    (enough : left reader ≤ count) : left ((read store)^[count] reader) = 0 := by
  induction count generalizing reader with
  | zero => exact Nat.le_zero.mp enough
  | succ count inductionHypothesis =>
      rw [Function.iterate_succ_apply]
      apply inductionHypothesis
      have fallen := falls reader
      omega

end Rules

end TellyDB.Lib.Interleaving
