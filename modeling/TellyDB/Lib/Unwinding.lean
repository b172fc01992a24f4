import Mathlib.Data.Option.Basic

/-!
Owns two runs of one machine that answers each of its inputs: when the answers tell the two
apart, and how that follows from single steps.

An input that the machine does not survive steps to `none`, and so does a run with one.
-/

namespace TellyDB.Lib.Unwinding

variable {σ α ω : Type*}

/-- The answers to all of `inputs`, and the state behind them. -/
def converse (step : σ → α → Option (σ × ω)) : σ → List α → Option (List ω × σ)
  | state, [] => some ([], state)
  | state, input :: rest =>
      (step state input).bind fun answered =>
        (converse step answered.1 rest).map fun later => (answered.2 :: later.1, later.2)

/-- Both runs survive, with the same answers, and end in related states. -/
def Indistinguishable (step : σ → α → Option (σ × ω)) (related : σ → σ → Prop) (left right : σ)
    (inputs : List α) : Prop :=
  ∃ outputs first second, converse step left inputs = some (outputs, first) ∧
    converse step right inputs = some (outputs, second) ∧ related first second

/-- Every input satisfies `condition` in both of the states that it is given in. -/
def Throughout (step : σ → α → Option (σ × ω)) (condition : σ → α → Prop) :
    σ → σ → List α → Prop
  | _, _, [] => True
  | left, right, input :: rest =>
      condition left input ∧ condition right input ∧
        ∀ next other, step left input = some next → step right input = some other →
          Throughout step condition next.1 other.1 rest

section Rules

variable {step : σ → α → Option (σ × ω)} {related : σ → σ → Prop} {left right : σ}

theorem converse_cons_eq_some {state : σ} {input : α} {rest : List α} {outputs : List ω}
    {final : σ} : converse step state (input :: rest) = some (outputs, final) ↔
      ∃ next output later, step state input = some (next, output) ∧
        converse step next rest = some (later, final) ∧ outputs = output :: later := by
  rw [converse, Option.bind_eq_some_iff]
  constructor
  · rintro ⟨⟨next, output⟩, stepped, ran⟩
    obtain ⟨⟨later, reached⟩, behind, same⟩ := Option.map_eq_some_iff.mp ran
    cases same
    exact ⟨next, output, later, stepped, behind, rfl⟩
  · rintro ⟨next, output, later, stepped, ran, rfl⟩
    exact ⟨(next, output), stepped, by rw [ran]; rfl⟩

theorem indistinguishable_cons {input : α} {rest : List α} :
    Indistinguishable step related left right (input :: rest) ↔
      ∃ next other output, step left input = some (next, output) ∧
        step right input = some (other, output) ∧
        Indistinguishable step related next other rest := by
  constructor
  · rintro ⟨outputs, first, second, ran, also, ends⟩
    obtain ⟨next, output, later, stepped, behind, rfl⟩ := converse_cons_eq_some.mp ran
    obtain ⟨other, reply, others, answered, beyond, same⟩ := converse_cons_eq_some.mp also
    cases same
    exact ⟨next, other, output, stepped, answered, later, first, second, behind, beyond, ends⟩
  · rintro ⟨next, other, output, stepped, answered, later, first, second, ran, also, ends⟩
    exact ⟨output :: later, first, second,
      converse_cons_eq_some.mpr ⟨next, output, later, stepped, ran, rfl⟩,
      converse_cons_eq_some.mpr ⟨other, output, later, answered, also, rfl⟩, ends⟩

/-- Where single steps answer related states alike, and survive exactly under a condition,
runs from related states are told apart only where an input breaks the condition. -/
theorem indistinguishable_iff_throughout {condition : σ → α → Prop}
    (survives : ∀ state input, (step state input).isSome ↔ condition state input)
    (alike : ∀ left right input next other, related left right →
      step left input = some next → step right input = some other →
        related next.1 other.1 ∧ next.2 = other.2)
    {inputs : List α} (initial : related left right) :
    Indistinguishable step related left right inputs ↔
      Throughout step condition left right inputs := by
  induction inputs generalizing left right with
  | nil =>
      rw [Throughout, iff_true]
      exact ⟨[], left, right, rfl, rfl, initial⟩
  | cons input rest inductionHypothesis =>
      rw [indistinguishable_cons, Throughout, ← survives, ← survives]
      constructor
      · rintro ⟨next, other, output, stepped, answered, later⟩
        have after := (alike _ _ _ _ _ initial stepped answered).1
        refine ⟨by rw [stepped]; rfl, by rw [answered]; rfl, fun again others same so => ?_⟩
        rw [stepped] at same
        rw [answered] at so
        cases same
        cases so
        exact (inductionHypothesis after).mp later
      · rintro ⟨first, second, later⟩
        obtain ⟨⟨next, output⟩, stepped⟩ := Option.isSome_iff_exists.mp first
        obtain ⟨⟨other, reply⟩, answered⟩ := Option.isSome_iff_exists.mp second
        obtain ⟨after, same⟩ := alike _ _ _ _ _ initial stepped answered
        cases same
        exact ⟨next, other, output, stepped, answered,
          (inductionHypothesis after).mpr (later _ _ stepped answered)⟩

end Rules

end TellyDB.Lib.Unwinding
