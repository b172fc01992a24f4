import TellyDB.Lib.Transition

/-!
Owns the end of a process: it finishes when it comes to an end after finitely many
steps of its own, whatever others do between them. A process whose steps use up a
measure, unless it spins, finishes exactly when it cannot come to spin or to a step
it has not.
-/

namespace TellyDB.Lib.Transition

variable {σ α : Type*}

/-- The process, whose steps are those of the labels `own`, is done, or, once others took
any of their steps, has a step and finishes behind each that it takes. -/
inductive Finishes (step : σ → α → Option σ) (own others : α → Prop) (done : σ → Prop) :
    σ → Prop where
  | done {state : σ} (ended : done state) : Finishes step own others done state
  | goesOn {state : σ}
      (enabled : ∀ labels middle, (∀ label ∈ labels, others label) →
        run step state labels = some middle →
        ∃ label next, own label ∧ step middle label = some next)
      (later : ∀ labels middle label next, (∀ label ∈ labels, others label) →
        run step state labels = some middle → own label → step middle label = some next →
        Finishes step own others done next) :
      Finishes step own others done state

/-- What a process needs to spin: `spinning` states are those it stays in, and all its other
steps use up the measure. -/
structure Spins (step : σ → α → Option σ) (own others : α → Prop) (done spinning : σ → Prop)
    (measure : σ → Nat) : Prop where
  stopped : ∀ state label next, done state → own label → step state label ≠ some next
  kept : ∀ state label next, others label → step state label = some next →
    (done next ↔ done state) ∧ measure next = measure state
  busy : ∀ state, spinning state → ¬done state
  stays : ∀ state label next, spinning state → own label → step state label = some next →
    spinning next
  usesUp : ∀ state label next, ¬spinning state → own label → step state label = some next →
    measure next < measure state

namespace Spins

variable {step : σ → α → Option σ} {own others : α → Prop} {done spinning : σ → Prop}
  {measure : σ → Nat}

/-- Others leave the process where it is. -/
theorem kept_run (spins : Spins step own others done spinning measure) {labels : List α}
    {state middle : σ} (foreign : ∀ label ∈ labels, others label)
    (ran : run step state labels = some middle) :
    (done middle ↔ done state) ∧ measure middle = measure state := by
  induction labels generalizing state with
  | nil =>
      cases ran
      exact ⟨Iff.rfl, rfl⟩
  | cons label rest inductionHypothesis =>
      obtain ⟨next, stepped, ran⟩ := run_cons_eq_some.mp ran
      obtain ⟨done, same⟩ :=
        spins.kept state label next (foreign label (List.mem_cons_self ..)) stepped
      obtain ⟨doneLater, sameLater⟩ := inductionHypothesis
        (fun other member => foreign other (List.mem_cons_of_mem _ member)) ran
      exact ⟨doneLater.trans done, sameLater.trans same⟩

/-- A process that spins does not finish. -/
theorem not_finishes (spins : Spins step own others done spinning measure) {state : σ}
    (spinning : spinning state) : ¬Finishes step own others done state := by
  intro finishes
  induction finishes with
  | done ended => exact spins.busy _ spinning ended
  | @goesOn state enabled later inductionHypothesis =>
      obtain ⟨label, next, isOwn, stepped⟩ := enabled [] state (by simp) rfl
      exact inductionHypothesis [] state label next (by simp) rfl isOwn stepped
        (spins.stays state label next spinning isOwn stepped)

/-- A process that finishes still does behind a step, of its own or of others. -/
theorem finishes_step (spins : Spins step own others done spinning measure) {label : α}
    {state next : σ} (known : own label ∨ others label)
    (finishes : Finishes step own others done state) (stepped : step state label = some next) :
    Finishes step own others done next := by
  rcases known with isOwn | foreign
  · cases finishes with
    | done ended => exact absurd stepped (spins.stopped state label next ended isOwn)
    | goesOn _ later => exact later [] state label next (by simp) rfl isOwn stepped
  · cases finishes with
    | done ended => exact .done ((spins.kept state label next foreign stepped).1.mpr ended)
    | goesOn enabled later =>
        have before : ∀ labels middle, (∀ other ∈ labels, others other) →
            run step next labels = some middle →
            (∀ other ∈ label :: labels, others other) ∧
              run step state (label :: labels) = some middle := by
          intro labels middle foreigners ran
          refine ⟨fun other member => ?_, run_cons_eq_some.mpr ⟨next, stepped, ran⟩⟩
          rcases List.mem_cons.mp member with rfl | later
          · exact foreign
          · exact foreigners other later
        refine .goesOn (fun labels middle foreigners ran => ?_)
          fun labels middle label next foreigners ran => ?_
        · obtain ⟨all, ran⟩ := before labels middle foreigners ran
          exact enabled _ middle all ran
        · obtain ⟨all, ran⟩ := before labels middle foreigners ran
          exact later _ middle label next all ran

theorem finishes_run (spins : Spins step own others done spinning measure) {labels : List α}
    {state reached : σ} (known : ∀ label ∈ labels, own label ∨ others label)
    (finishes : Finishes step own others done state)
    (ran : run step state labels = some reached) : Finishes step own others done reached := by
  induction labels generalizing state with
  | nil =>
      cases ran
      exact finishes
  | cons label rest inductionHypothesis =>
      obtain ⟨next, stepped, ran⟩ := run_cons_eq_some.mp ran
      have later := spins.finishes_step (known label (List.mem_cons_self ..)) finishes stepped
      exact inductionHypothesis (fun other member => known other (List.mem_cons_of_mem _ member))
        later ran

/-- A process finishes exactly when it neither comes to spin nor to a state that is not done
and has no step of it. -/
theorem finishes_iff (spins : Spins step own others done spinning measure) (state : σ) :
    Finishes step own others done state ↔
      ∀ labels reached, (∀ label ∈ labels, own label ∨ others label) →
        run step state labels = some reached →
        ¬spinning reached ∧
          (done reached ∨ ∃ label next, own label ∧ step reached label = some next) := by
  constructor
  · intro finishes labels reached known ran
    have later := spins.finishes_run known finishes ran
    refine ⟨fun spinning => spins.not_finishes spinning later, ?_⟩
    cases later with
    | done ended => exact .inl ended
    | goesOn enabled _ => exact .inr (enabled [] reached (by simp) rfl)
  · intro sane
    induction size : measure state using Nat.strongRecOn generalizing state with
    | ind size_ inductionHypothesis =>
        by_cases ended : done state
        · exact .done ended
        · have foreigners : ∀ {labels : List α}, (∀ label ∈ labels, others label) →
              ∀ label ∈ labels, own label ∨ others label :=
            fun foreign label member => .inr (foreign label member)
          refine .goesOn (fun labels middle foreign ran => ?_)
            fun labels middle label next foreign ran isOwn stepped => ?_
          · rcases (sane labels middle (foreigners foreign) ran).2 with endedLater | enabled
            · exact absurd ((spins.kept_run foreign ran).1.mp endedLater) ended
            · exact enabled
          · have calm := (sane labels middle (foreigners foreign) ran).1
            have less := spins.usesUp middle label next calm isOwn stepped
            rw [(spins.kept_run foreign ran).2, size] at less
            refine inductionHypothesis _ less next (fun others reached known ranOthers => ?_) rfl
            refine sane (labels ++ label :: others) reached (fun other member => ?_) ?_
            · rcases List.mem_append.mp member with before | behind
              · exact .inr (foreign other before)
              · rcases List.mem_cons.mp behind with rfl | later
                · exact .inl isOwn
                · exact known other later
            · rw [run_append, ran]
              exact run_cons_eq_some.mpr ⟨next, stepped, ranOthers⟩

end Spins

end TellyDB.Lib.Transition
