import TellyDB.Lib.Tally
import Mathlib.Data.List.Perm.Basic
import Mathlib.Logic.Function.Basic

/-!
Owns reference counts: how many holders refer to an object and how often it stands in a queue.
The rules say what taking, dropping and moving one reference does to the count of every object.
-/

namespace TellyDB.Lib

variable {S A : Type*} [Fintype S] [DecidableEq S] [DecidableEq A]

/-- The references to an object: its holders, and its places in the queue. -/
def references (held : S → Option A) (queue : List A) (object : A) : Nat :=
  tally (fun holder => held holder = some object) + queue.count object

section References

variable {held : S → Option A} {queue : List A} {object : A}

omit [DecidableEq S] in
theorem references_eq_zero :
    references held queue object = 0 ↔ (∀ holder, held holder ≠ some object) ∧ object ∉ queue := by
  rw [references, Nat.add_eq_zero_iff, tally_eq_zero_iff, List.count_eq_zero]

omit [DecidableEq S] in
/-- One more place in the queue. -/
theorem references_append (added : A) :
    references held (queue ++ [added]) object =
      references held queue object + if added = object then 1 else 0 := by
  rw [references, references, List.count_append, List.count_singleton, ← Nat.add_assoc]
  simp only [beq_iff_eq]

omit [DecidableEq S] in
/-- One place less in the queue. -/
theorem references_eraseIdx {index : Nat} {removed : A} (found : queue[index]? = some removed) :
    references held (queue.eraseIdx index) object + (if removed = object then 1 else 0) =
      references held queue object := by
  obtain ⟨bound, rfl⟩ := List.getElem?_eq_some_iff.mp found
  have counted := (List.getElem_cons_eraseIdx_perm bound).count_eq object
  rw [List.count_cons] at counted
  simp only [beq_iff_eq] at counted
  rw [references, references]
  omega

/-- One holder changes what it holds. -/
theorem references_update (holder : S) (next : Option A) :
    references (Function.update held holder next) queue object +
        (if held holder = some object then 1 else 0) =
      references held queue object + if next = some object then 1 else 0 := by
  have changed := tally_changed (fun other => held other = some object)
    (fun other => Function.update held holder next other = some object)
    fun other (different : other ≠ holder) => by rw [Function.update_of_ne different]
  rw [Function.update_self] at changed
  rw [references, references]
  omega

end References

end TellyDB.Lib
