import Mathlib.Data.Option.Basic

/-!
Owns two machines that answer the same inputs, run beside each other: rules for results that are
related, and how what single steps keep becomes what whole runs show.

A step that is `none` stops its machine.
-/

namespace TellyDB.Lib.Bisimulation

/-! ## Related results -/

section Results

variable {α β γ δ : Type*} {related : α → β → Prop} {onward : γ → δ → Prop} {left : Option α}
  {right : Option β}

theorem rel_bind {next : α → Option γ} {other : β → Option δ}
    (results : Option.Rel related left right)
    (follows : ∀ first second, related first second →
      Option.Rel onward (next first) (other second)) :
    Option.Rel onward (left.bind next) (right.bind other) := by
  cases results with
  | none => exact .none
  | some holds => exact follows _ _ holds

theorem rel_map {change : α → γ} {alter : β → δ} (results : Option.Rel related left right)
    (follows : ∀ first second, related first second → onward (change first) (alter second)) :
    Option.Rel onward (left.map change) (right.map alter) := by
  cases results with
  | none => exact .none
  | some holds => exact .some (follows _ _ holds)

theorem rel_imp {weaker : α → β → Prop} (results : Option.Rel related left right)
    (follows : ∀ first second, related first second → weaker first second) :
    Option.Rel weaker left right := by
  cases results with
  | none => exact .none
  | some holds => exact .some (follows _ _ holds)

theorem rel_self {results : Option α} {onto : α → α → Prop} (reflexive : ∀ value, onto value value) :
    Option.Rel onto results results := by
  cases results with
  | none => exact .none
  | some value => exact .some (reflexive value)

theorem rel_eq (results : Option α) : Option.Rel Eq results results := rel_self fun _ => rfl

end Results

/-! ## Two machines -/

section Machines

variable {σ τ α ω υ : Type*}

/-- The machines stop at the same input or at none, answer as `answers` says, and end in states
that are `related`. -/
def Agree (first : σ → α → Option (σ × ω)) (second : τ → α → Option (τ × υ))
    (answers : α → ω → υ → Prop) (related : σ → τ → Prop) : σ → τ → List α → Prop
  | left, right, [] => related left right
  | left, right, input :: rest =>
      Option.Rel (fun next other => answers input next.2 other.2 ∧
        Agree first second answers related next.1 other.1 rest) (first left input)
          (second right input)

/-- An invariant that also looks at the inputs to come, which every step keeps. -/
theorem agree_of_remaining {first : σ → α → Option (σ × ω)} {second : τ → α → Option (τ × υ)}
    {answers : α → ω → υ → Prop} {related : σ → τ → Prop} {invariant : σ → τ → List α → Prop}
    (step : ∀ left right input rest, invariant left right (input :: rest) →
      Option.Rel (fun next other => invariant next.1 other.1 rest ∧ answers input next.2 other.2)
        (first left input) (second right input))
    (ends : ∀ left right, invariant left right [] → related left right)
    {left : σ} {right : τ} {inputs : List α} (initial : invariant left right inputs) :
    Agree first second answers related left right inputs := by
  induction inputs generalizing left right with
  | nil => exact ends left right initial
  | cons input rest inductionHypothesis =>
      exact rel_imp (step left right input rest initial) fun next other ⟨after, alike⟩ =>
        ⟨alike, inductionHypothesis after⟩

end Machines

end TellyDB.Lib.Bisimulation
