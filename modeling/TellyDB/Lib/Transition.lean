import Mathlib.Data.List.Basic
import Mathlib.Data.Option.Basic

/-!
Owns runs of a system that takes one labelled step at a time, and the rules by
which a property of one step becomes a property of a whole run.

A label that is not enabled steps to `none`, so a run that exists took every
one of its labels.
-/

namespace TellyDB.Lib.Transition

variable {σ α : Type*}

/-- The state after all of `labels`, taken in order. -/
def run (step : σ → α → Option σ) : σ → List α → Option σ
  | state, [] => some state
  | state, label :: rest => (step state label).bind fun next => run step next rest

/-- Every label of the run satisfies `guard` in the state it is taken in. -/
def Guarded (step : σ → α → Option σ) (guard : σ → α → Prop) : σ → List α → Prop
  | _, [] => True
  | state, label :: rest =>
      guard state label ∧ ∀ next, step state label = some next → Guarded step guard next rest

section Rules

variable {step : σ → α → Option σ}

@[simp] theorem run_nil (state : σ) : run step state [] = some state := rfl

theorem run_cons (state : σ) (label : α) (rest : List α) :
    run step state (label :: rest) = (step state label).bind fun next => run step next rest := rfl

theorem run_cons_eq_some {state final : σ} {label : α} {rest : List α} :
    run step state (label :: rest) = some final ↔
      ∃ next, step state label = some next ∧ run step next rest = some final := by
  rw [run_cons, Option.bind_eq_some_iff]

theorem run_append (state : σ) (first second : List α) :
    run step state (first ++ second) =
      (run step state first).bind fun middle => run step middle second := by
  induction first generalizing state with
  | nil => rfl
  | cons label rest inductionHypothesis =>
      rw [List.cons_append, run_cons, run_cons, Option.bind_assoc]
      congr 1
      funext next
      exact inductionHypothesis next

/-- What every step preserves, every run preserves. -/
theorem run_invariant {invariant : σ → Prop}
    (preserved : ∀ state label next, invariant state → step state label = some next →
      invariant next)
    {labels : List α} {state final : σ} (initial : invariant state)
    (ran : run step state labels = some final) : invariant final := by
  induction labels generalizing state with
  | nil =>
      cases ran
      exact initial
  | cons label rest inductionHypothesis =>
      obtain ⟨next, stepped, ran⟩ := run_cons_eq_some.mp ran
      exact inductionHypothesis (preserved state label next initial stepped) ran

/-- What the steps with some labels preserve, every run of these labels preserves. -/
theorem run_invariant_among {invariant : σ → Prop} {labels : List α} {state final : σ}
    (preserved : ∀ state, ∀ label ∈ labels, ∀ next, invariant state →
      step state label = some next → invariant next)
    (initial : invariant state) (ran : run step state labels = some final) : invariant final := by
  induction labels generalizing state with
  | nil =>
      cases ran
      exact initial
  | cons label rest inductionHypothesis =>
      obtain ⟨next, stepped, ran⟩ := run_cons_eq_some.mp ran
      refine inductionHypothesis ?_ (preserved state label List.mem_cons_self next initial stepped)
        ran
      intro state other member
      exact preserved state other (List.mem_cons_of_mem _ member)

/-- What every guarded step preserves, every guarded run preserves. -/
theorem guarded_run_invariant {guard : σ → α → Prop} {invariant : σ → Prop}
    (preserved : ∀ state label next, invariant state → guard state label →
      step state label = some next → invariant next)
    {labels : List α} {state final : σ} (initial : invariant state)
    (guarded : Guarded step guard state labels)
    (ran : run step state labels = some final) : invariant final := by
  induction labels generalizing state with
  | nil =>
      cases ran
      exact initial
  | cons label rest inductionHypothesis =>
      obtain ⟨next, stepped, ran⟩ := run_cons_eq_some.mp ran
      exact inductionHypothesis (preserved state label next initial guarded.1 stepped)
        (guarded.2 next stepped) ran

/-- A property holds after every part of a run exactly when every step is
guarded, where a guarded step keeps an invariant that gives the property and an
unguarded one gets stuck or breaks the property. -/
theorem always_iff_guarded {guard : σ → α → Prop} {invariant property : σ → Prop}
    (kept : ∀ state label, invariant state → guard state label →
      ∃ next, step state label = some next ∧ invariant next)
    (holds : ∀ state, invariant state → property state)
    (broken : ∀ state label next, invariant state → ¬guard state label →
      step state label = some next → ¬property next)
    {labels : List α} {state : σ} (initial : invariant state) :
    (∀ first, first <+: labels → ∃ final, run step state first = some final ∧ property final) ↔
      Guarded step guard state labels := by
  induction labels generalizing state with
  | nil =>
      refine ⟨fun _ => trivial, fun _ first isPrefix => ?_⟩
      rw [List.prefix_nil.mp isPrefix]
      exact ⟨state, rfl, holds state initial⟩
  | cons label rest inductionHypothesis =>
      constructor
      · intro always
        obtain ⟨next, ran, property⟩ := always [label] ⟨rest, rfl⟩
        rw [run_cons, Option.bind_eq_some_iff] at ran
        obtain ⟨reached, stepped, same⟩ := ran
        cases same
        have guarded : guard state label := by
          by_contra unguarded
          exact broken state label next initial unguarded stepped property
        refine ⟨guarded, fun other steppedOther => ?_⟩
        rw [stepped] at steppedOther
        cases steppedOther
        obtain ⟨_, steppedAgain, held⟩ := kept state label initial guarded
        rw [stepped] at steppedAgain
        cases steppedAgain
        apply (inductionHypothesis held).mp
        intro first isPrefix
        obtain ⟨final, ran, property⟩ := always (label :: first)
          (List.cons_prefix_cons.mpr ⟨rfl, isPrefix⟩)
        rw [run_cons, stepped] at ran
        exact ⟨final, ran, property⟩
      · rintro ⟨guarded, later⟩ first isPrefix
        cases first with
        | nil => exact ⟨state, rfl, holds state initial⟩
        | cons head others =>
            rcases List.cons_prefix_cons.mp isPrefix with ⟨rfl, othersPrefix⟩
            obtain ⟨next, stepped, held⟩ := kept state head initial guarded
            obtain ⟨final, ran, property⟩ :=
              (inductionHypothesis held).mpr (later next stepped) others othersPrefix
            refine ⟨final, ?_, property⟩
            rw [run_cons, stepped]
            exact ran

/-- The steps of a first part of a guarded run are guarded. -/
theorem guarded_take {guard : σ → α → Prop} {state : σ} {first rest : List α}
    (guarded : Guarded step guard state (first ++ rest)) : Guarded step guard state first := by
  induction first generalizing state with
  | nil => trivial
  | cons label others inductionHypothesis =>
      exact ⟨guarded.1, fun next stepped => inductionHypothesis (guarded.2 next stepped)⟩

/-- The steps of a run are guarded when an invariant that its labels keep gives the guard. -/
theorem guarded_of_invariant {guard : σ → α → Prop} {invariant : σ → Prop} {labels : List α}
    (kept : ∀ label ∈ labels, ∀ state next, invariant state → step state label = some next →
      invariant next)
    (gives : ∀ label ∈ labels, ∀ state, invariant state → guard state label)
    {state : σ} (initial : invariant state) : Guarded step guard state labels := by
  induction labels generalizing state with
  | nil => trivial
  | cons label rest inductionHypothesis =>
      refine ⟨gives label List.mem_cons_self state initial, fun next stepped => ?_⟩
      apply inductionHypothesis
      · exact fun other member => kept other (List.mem_cons_of_mem label member)
      · exact fun other member => gives other (List.mem_cons_of_mem label member)
      · exact kept label List.mem_cons_self state next initial stepped

/-- Two guards of a run are one. -/
theorem guarded_and {one other : σ → α → Prop} {state : σ} {labels : List α}
    (first : Guarded step one state labels) (second : Guarded step other state labels) :
    Guarded step (fun state label => one state label ∧ other state label) state labels := by
  induction labels generalizing state with
  | nil => trivial
  | cons label rest inductionHypothesis =>
      exact ⟨⟨first.1, second.1⟩, fun next stepped =>
        inductionHypothesis (first.2 next stepped) (second.2 next stepped)⟩

/-- A property holds of every state reached exactly when every step is guarded, where a
guarded step that is taken keeps an invariant that gives the property and an unguarded one
is taken and breaks the property. -/
theorem reached_iff_guarded {guard : σ → α → Prop} {invariant property : σ → Prop}
    (kept : ∀ state label next, invariant state → guard state label →
      step state label = some next → invariant next)
    (holds : ∀ state, invariant state → property state)
    (broken : ∀ state label, invariant state → ¬guard state label →
      ∃ next, step state label = some next ∧ ¬property next)
    {labels : List α} {state : σ} (initial : invariant state) :
    (∀ first, first <+: labels → ∀ final, run step state first = some final →
      property final) ↔ Guarded step guard state labels := by
  constructor
  · intro always
    induction labels generalizing state with
    | nil => trivial
    | cons label rest inductionHypothesis =>
        have guarded : guard state label := by
          by_contra unguarded
          obtain ⟨next, stepped, broke⟩ := broken state label initial unguarded
          apply broke
          apply always [label] ⟨rest, rfl⟩
          rw [run_cons, stepped]
          rfl
        refine ⟨guarded, fun next stepped => ?_⟩
        apply inductionHypothesis (kept state label next initial guarded stepped)
        intro first isPrefix final ran
        apply always (label :: first) (List.cons_prefix_cons.mpr ⟨rfl, isPrefix⟩)
        rw [run_cons, stepped]
        exact ran
  · intro guarded first isPrefix final ran
    apply holds
    obtain ⟨rest, rfl⟩ := isPrefix
    exact guarded_run_invariant kept initial (guarded_take guarded) ran

instance decidableGuarded (step : σ → α → Option σ) (guard : σ → α → Prop)
    [∀ state label, Decidable (guard state label)] :
    ∀ state labels, Decidable (Guarded step guard state labels)
  | _, [] => isTrue trivial
  | state, label :: rest =>
      match stepped : step state label with
      | none =>
          decidable_of_iff (guard state label)
            ⟨fun held => ⟨held, fun next reached => by simp [stepped] at reached⟩, And.left⟩
      | some next =>
          have := decidableGuarded step guard next rest
          decidable_of_iff (guard state label ∧ Guarded step guard next rest)
            (by simp [Guarded, stepped])

end Rules

end TellyDB.Lib.Transition
