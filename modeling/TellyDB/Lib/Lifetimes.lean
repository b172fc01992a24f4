import TellyDB.Lib.Transition
import Mathlib.Data.Finset.Basic

/-!
Owns the lifetimes of resources: what a sequence of allocations, uses and frees
leaves live. A sequence that uses or frees what is not live, or allocates what is,
leaves nothing.
-/

namespace TellyDB.Lib.Lifetimes

variable {ρ : Type*} [DecidableEq ρ]

inductive Access (ρ : Type*) where
  | allocate (resource : ρ)
  | use (resource : ρ)
  | free (resource : ρ)
deriving DecidableEq

def step (live : Finset ρ) : Access ρ → Option (Finset ρ)
  | .allocate resource => if resource ∈ live then none else some (insert resource live)
  | .use resource => if resource ∈ live then some live else none
  | .free resource => if resource ∈ live then some (live.erase resource) else none

/-- What the accesses leave live. -/
def leaves (live : Finset ρ) (accesses : List (Access ρ)) : Option (Finset ρ) :=
  Transition.run step live accesses

variable {live left : Finset ρ} {resource : ρ} {accesses : List (Access ρ)}

@[simp] theorem leaves_nil : leaves live [] = some live := rfl

@[simp] theorem leaves_allocate :
    leaves live (.allocate resource :: accesses) =
      if resource ∈ live then none else leaves (insert resource live) accesses := by
  rw [leaves, Transition.run_cons, step]
  split <;> rfl

@[simp] theorem leaves_use :
    leaves live (.use resource :: accesses) =
      if resource ∈ live then leaves live accesses else none := by
  rw [leaves, Transition.run_cons, step]
  split <;> rfl

@[simp] theorem leaves_free :
    leaves live (.free resource :: accesses) =
      if resource ∈ live then leaves (live.erase resource) accesses else none := by
  rw [leaves, Transition.run_cons, step]
  split <;> rfl

theorem leaves_append (first second : List (Access ρ)) :
    leaves live (first ++ second) =
      (leaves live first).bind fun left => leaves left second :=
  Transition.run_append live first second

theorem leaves_uses {resources : List ρ} (held : ∀ resource ∈ resources, resource ∈ live) :
    leaves live (resources.map .use) = some live := by
  induction resources with
  | nil => rfl
  | cons resource rest inductionHypothesis =>
      rw [List.map_cons, leaves_use, if_pos (held resource List.mem_cons_self)]
      exact inductionHypothesis fun other member => held other (List.mem_cons_of_mem _ member)

/-- Every allocation is freed once, apart from what is live at the end. -/
theorem frees_eq_allocations (ran : leaves live accesses = some left) (resource : ρ) :
    accesses.count (.free resource) + (if resource ∈ left then 1 else 0) =
      accesses.count (.allocate resource) + if resource ∈ live then 1 else 0 := by
  induction accesses generalizing live with
  | nil =>
      cases ran
      rfl
  | cons access rest inductionHypothesis =>
      cases access with
      | allocate other =>
          simp only [leaves_allocate, Option.ite_none_left_eq_some] at ran
          have later := inductionHypothesis ran.2
          by_cases same : resource = other
          · subst same
            simp [ran.1] at later ⊢
            omega
          · simp [same, Ne.symm same] at later ⊢
            omega
      | use other =>
          simp only [leaves_use, Option.ite_none_right_eq_some] at ran
          have later := inductionHypothesis ran.2
          simp at later ⊢
          omega
      | free other =>
          simp only [leaves_free, Option.ite_none_right_eq_some] at ran
          have later := inductionHypothesis ran.2
          by_cases same : resource = other
          · subst same
            simp [ran.1] at later ⊢
            omega
          · simp [same, Ne.symm same] at later ⊢
            omega

/-- What is not live is touched no more, unless it is allocated again. -/
theorem leaves_touch_dead {touch : Access ρ}
    (touches : touch = .use resource ∨ touch = .free resource) (dead : resource ∉ live)
    (unallocated : .allocate resource ∉ accesses) :
    leaves live (accesses ++ [touch]) = none := by
  induction accesses generalizing live with
  | nil => rcases touches with rfl | rfl <;> simp [dead]
  | cons access rest inductionHypothesis =>
      have later : .allocate resource ∉ rest := fun member =>
        unallocated (List.mem_cons_of_mem _ member)
      cases access with
      | allocate other =>
          have different : resource ≠ other := by
            rintro rfl
            exact unallocated List.mem_cons_self
          have still : resource ∉ insert other live := by simp [dead, different]
          simp [inductionHypothesis still later]
      | use other => simp [inductionHypothesis dead later]
      | free other =>
          have still : resource ∉ live.erase other := by simp [dead]
          simp [inductionHypothesis still later]

end TellyDB.Lib.Lifetimes
