import Mathlib.Data.List.Basic

/-!
Owns computations that leave a trace of events and may get stuck; what they did
before they got stuck stays in the trace.
-/

namespace TellyDB.Lib

/-- The events, and the result unless the computation got stuck. -/
structure Traced (ε α : Type) where
  events : List ε
  result : Option α
deriving DecidableEq

namespace Traced

variable {ε α β : Type}

instance : Monad (Traced ε) where
  pure value := ⟨[], some value⟩
  bind first next := match first.result with
    | none => ⟨first.events, none⟩
    | some value => ⟨first.events ++ (next value).events, (next value).result⟩

def emit (events : List ε) : Traced ε Unit := ⟨events, some ()⟩

/-- A computation without events. -/
def lift (result : Option α) : Traced ε α := ⟨[], result⟩

def stuck : Traced ε α := lift none

@[simp] theorem events_pure (value : α) : (pure value : Traced ε α).events = [] := rfl

@[simp] theorem result_pure (value : α) : (pure value : Traced ε α).result = some value := rfl

@[simp] theorem events_emit (events : List ε) : (emit events).events = events := rfl

@[simp] theorem result_emit (events : List ε) : (emit events).result = some () := rfl

@[simp] theorem events_lift (result : Option α) : (lift result : Traced ε α).events = [] := rfl

@[simp] theorem result_lift (result : Option α) : (lift result : Traced ε α).result = result := rfl

@[simp] theorem events_stuck : (stuck : Traced ε α).events = [] := rfl

@[simp] theorem result_stuck : (stuck : Traced ε α).result = none := rfl

variable {first : Traced ε α} (next : α → Traced ε β)

@[simp] theorem result_bind : (first >>= next).result =
    first.result.bind fun value => (next value).result := by
  show (match first.result with
    | none => (⟨first.events, none⟩ : Traced ε β)
    | some value => ⟨first.events ++ (next value).events, (next value).result⟩).result = _
  cases first.result <;> rfl

theorem events_bind_some {value : α} (result : first.result = some value) :
    (first >>= next).events = first.events ++ (next value).events := by
  show (match first.result with
    | none => (⟨first.events, none⟩ : Traced ε β)
    | some value => ⟨first.events ++ (next value).events, (next value).result⟩).events = _
  rw [result]

theorem events_bind_none (result : first.result = none) :
    (first >>= next).events = first.events := by
  show (match first.result with
    | none => (⟨first.events, none⟩ : Traced ε β)
    | some value => ⟨first.events ++ (next value).events, (next value).result⟩).events = _
  rw [result]

@[simp] theorem events_emit_bind (events : List ε) (next : Unit → Traced ε α) :
    (emit events >>= next).events = events ++ (next ()).events := rfl

@[simp] theorem result_ite (condition : Prop) [Decidable condition] (other : Traced ε α) :
    (if condition then first else other).result =
      if condition then first.result else other.result := apply_ite result _ _ _

end Traced

end TellyDB.Lib
