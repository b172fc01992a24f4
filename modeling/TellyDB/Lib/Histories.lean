import Mathlib.Data.List.Induction
import Mathlib.Data.List.Nodup

/-!
Owns histories of a concurrent object: traces in which every event is justified by those before
it, sequential runs of the operations that took effect, and the order of time that both keep.
-/

namespace TellyDB.Lib.Histories

variable {ε α τ σ : Type*}

/-! ## Traces -/

/-- Every event of the trace is justified by what came before. -/
def Grounded (justified : List ε → ε → Prop) (trace : List ε) : Prop :=
  ∀ before event after, trace = before ++ event :: after → justified before event

section Traces

variable {justified : List ε → ε → Prop} {trace : List ε} {event : ε}

theorem grounded_nil : Grounded justified [] := by
  intro before event after whole
  simp at whole

theorem Grounded.snoc (grounded : Grounded justified trace) (here : justified trace event) :
    Grounded justified (trace ++ [event]) := by
  intro before other after whole
  rcases List.eq_nil_or_concat after with rfl | ⟨rest, last, rfl⟩
  · obtain ⟨rfl, same⟩ := List.append_inj' whole rfl
    cases same
    exact here
  · rw [List.concat_eq_append, ← List.cons_append, ← List.append_assoc] at whole
    exact grounded before other rest (List.append_inj' whole rfl).1

/-- Events that need nothing of each other. -/
theorem Grounded.append (grounded : Grounded justified trace) {events : List ε}
    (each : ∀ before, ∀ event ∈ events, trace <+: before → justified before event) :
    Grounded justified (trace ++ events) := by
  induction events using List.reverseRecOn with
  | nil =>
      rw [List.append_nil]
      exact grounded
  | append_singleton others last inductionHypothesis =>
      rw [← List.append_assoc]
      have before := inductionHypothesis fun before event member =>
        each before event (List.mem_append_left _ member)
      exact before.snoc (each _ last (List.mem_append_right _ (List.mem_singleton_self _))
        (List.prefix_append _ _))

/-- Where an operation takes effect only behind its call, and is called once, it takes no effect
before a call that is still to come. -/
theorem Grounded.not_before {called effective : ε → Option τ}
    (grounded : Grounded justified trace)
    (follows : ∀ before event operation, justified before event →
      effective event = some operation → operation ∈ before.filterMap called)
    (once : (trace.filterMap called).Nodup) {before after : List ε} {operation : τ}
    (whole : trace = before ++ after) (later : operation ∈ after.filterMap called) :
    operation ∉ before.filterMap effective := by
  intro early
  obtain ⟨event, inside, effect⟩ := List.mem_filterMap.mp early
  obtain ⟨front, back, rfl⟩ := List.append_of_mem inside
  have here : justified front event := by
    apply grounded front event (back ++ after)
    rw [whole, List.append_assoc, List.cons_append]
  have first := follows front event operation here effect
  rw [whole, List.filterMap_append, List.filterMap_append] at once
  have apart := (List.nodup_append.mp once).2.2
  exact apart operation (List.mem_append_left _ first) operation later rfl

end Traces

/-! ## Sequential runs -/

/-- The operations take the state from the initial one to this, one after the other. -/
inductive Replays (takes : α → σ → σ → Prop) (initial : σ) : List α → σ → Prop
  | begun : Replays takes initial [] initial
  | snoc {operations : List α} {operation : α} {state next : σ}
      (before : Replays takes initial operations state) (taken : takes operation state next) :
      Replays takes initial (operations ++ [operation]) next

end TellyDB.Lib.Histories
