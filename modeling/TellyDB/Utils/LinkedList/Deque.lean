import TellyDB.Lib.Transition
import TellyDB.Utils.LinkedList.Linked

/-!
Owns sequences of insertions and removals on one linked list against the
abstract sequence they stand for.
-/

namespace TellyDB.Utils.LinkedList

open Lib Lib.LinkedSegment Lib.Transition

variable {D : Type}

/-- One call on the list; an insertion comes with the address the allocator
would hand out. -/
inductive Operation (D : Type) where
  | insertFront (address : Nat) (data : D)
  | insertBack (address : Nat) (data : D)
  | removeFront
  | removeBack

/-- The list, its memory, and the abstract sequence. -/
structure State (D : Type) where
  memory : Memory D
  list : LinkedList
  contents : List D

/-- `ll_create` on a fresh memory. -/
def State.create : State D := ⟨fun _ => none, llCreate, []⟩

/-- One call; an insertion that returns NULL leaves the sequence as it was. -/
def step (state : State D) : Operation D → Option (State D)
  | .insertFront address data => do
      let (memory, list, node) ← llInsertFront state.memory state.list address data
      some ⟨memory, list, if node.isSome then data :: state.contents else state.contents⟩
  | .insertBack address data => do
      let (memory, list, node) ← llInsertBack state.memory state.list address data
      some ⟨memory, list, if node.isSome then state.contents ++ [data] else state.contents⟩
  | .removeFront => do
      let (memory, list, _) ← llRemoveFront state.memory state.list
      some ⟨memory, list, state.contents.tail⟩
  | .removeBack => do
      let (memory, list, _) ← llRemoveBack state.memory state.list
      some ⟨memory, list, state.contents.dropLast⟩

/-- A removal leaves no node behind. -/
def LeavesNoNode (state : State D) : Operation D → Prop
  | .insertFront _ _ | .insertBack _ _ => True
  | .removeFront | .removeBack => state.list.size ≤ 1

instance (state : State D) (operation : Operation D) :
    Decidable (LeavesNoNode state operation) :=
  match operation with
  | .insertFront _ _ | .insertBack _ _ => isTrue trivial
  | .removeFront | .removeBack => inferInstanceAs (Decidable (_ ≤ 1))

/-- The list is intact and holds the abstract sequence. -/
def State.Intact (state : State D) : Prop :=
  LinkedList.Intact state.memory state.list state.contents

/-- The invariant of the run: the list is linked over nodes holding the sequence. -/
def State.Linked (state : State D) : Prop :=
  ∃ nodes, nodes.map Prod.snd = state.contents ∧ LinkedList.Linked state.memory state.list nodes

theorem State.Linked.intact {state : State D} (linked : state.Linked) : state.Intact := by
  rcases linked with ⟨nodes, contents_eq, linked⟩
  exact ⟨nodes, contents_eq, linked.intact⟩

theorem linked_initial : (State.create : State D).Linked := ⟨[], rfl, linked_create⟩

theorem llInsertFront_live {memory : Memory D} {address : Nat} {node : LinkedListNode D}
    (held : memory address = some node) (list : LinkedList) (data : D) :
    llInsertFront memory list address data = some (memory, list, none) := by
  simp [llInsertFront, llCreateNode, held]

theorem llInsertBack_live {memory : Memory D} {address : Nat} {node : LinkedListNode D}
    (held : memory address = some node) (list : LinkedList) (data : D) :
    llInsertBack memory list address data = some (memory, list, none) := by
  simp [llInsertBack, llCreateNode, held]

/-- A call that removes no node with another one left keeps the list linked. -/
theorem step_linked (state : State D) (operation : Operation D) (linked : state.Linked)
    (guarded : LeavesNoNode state operation) :
    ∃ next, step state operation = some next ∧ next.Linked := by
  rcases linked with ⟨nodes, contents_eq, linked⟩
  cases operation with
  | insertFront address data =>
      cases held : state.memory address with
      | some node =>
          refine ⟨state, ?_, nodes, contents_eq, linked⟩
          simp [step, llInsertFront_live held]
      | none =>
          rcases linked.llInsertFront held data with ⟨after, list, inserted, kept⟩
          refine ⟨⟨after, list, data :: state.contents⟩, ?_, _, ?_, kept⟩
          · simp [step, inserted]
          · rw [List.map_cons, contents_eq]
  | insertBack address data =>
      cases held : state.memory address with
      | some node =>
          refine ⟨state, ?_, nodes, contents_eq, linked⟩
          simp [step, llInsertBack_live held]
      | none =>
          rcases linked.llInsertBack held data with ⟨after, list, inserted, kept⟩
          refine ⟨⟨after, list, state.contents ++ [data]⟩, ?_, _, ?_, kept⟩
          · simp [step, inserted]
          · rw [List.map_append, contents_eq]
            rfl
  | removeFront =>
      have short : nodes.length ≤ 1 := linked.size_eq ▸ guarded
      match nodes, short with
      | [], _ =>
          refine ⟨⟨state.memory, state.list, []⟩, ?_, [], rfl, linked⟩
          simp [step, linked.remove_empty.1, ← contents_eq]
      | [node], _ =>
          rcases linked.llRemoveFront with ⟨after, list, removed, kept⟩
          refine ⟨⟨after, list, []⟩, ?_, [], rfl, kept⟩
          simp [step, removed, ← contents_eq]
  | removeBack =>
      have short : nodes.length ≤ 1 := linked.size_eq ▸ guarded
      match nodes, short with
      | [], _ =>
          refine ⟨⟨state.memory, state.list, []⟩, ?_, [], rfl, linked⟩
          simp [step, linked.remove_empty.2, ← contents_eq]
      | [node], _ =>
          rcases linked.llRemoveBack with ⟨after, list, removed, kept⟩
          refine ⟨⟨after, list, []⟩, ?_, [], rfl, kept⟩
          simp [step, removed, ← contents_eq]

/-- Removing a node while others stay leaves a link to it. -/
theorem Linked.remove_dangling {memory : Memory D} {list : LinkedList} {nodes : List (Nat × D)}
    (linked : Linked memory list nodes) (several : 2 ≤ nodes.length) :
    (∃ after list', LinkedList.llRemoveFront memory list = some (after, list', true) ∧
      Dangling after) ∧
    ∃ after list', LinkedList.llRemoveBack memory list = some (after, list', true) ∧
      Dangling after := by
  constructor
  · match nodes, several with
    | node :: second :: rest, _ => exact linked.llRemoveFront_dangling
  · have reversed : 2 ≤ nodes.reverse.length := by rwa [List.length_reverse]
    match back : nodes.reverse, reversed with
    | node :: second :: rest, _ =>
        have nodes_eq : nodes = rest.reverse ++ [second, node] := by
          rw [← List.reverse_reverse nodes, back]
          simp
        rw [nodes_eq] at linked
        exact linked.llRemoveBack_dangling

theorem step_broken (state : State D) (operation : Operation D) (next : State D)
    (linked : state.Linked) (unguarded : ¬LeavesNoNode state operation)
    (stepped : step state operation = some next) : ¬next.Intact := by
  rcases linked with ⟨nodes, -, linked⟩
  cases operation with
  | insertFront | insertBack => exact absurd trivial unguarded
  | removeFront =>
      have several : 2 ≤ nodes.length := by
        rw [← linked.size_eq]
        exact Nat.lt_of_not_le unguarded
      rcases (linked.remove_dangling several).1 with ⟨after, list, removed, dangling⟩
      simp only [step, removed, Option.bind_eq_bind, Option.bind_some] at stepped
      cases stepped
      exact dangling.not_intact _ _
  | removeBack =>
      have several : 2 ≤ nodes.length := by
        rw [← linked.size_eq]
        exact Nat.lt_of_not_le unguarded
      rcases (linked.remove_dangling several).2 with ⟨after, list, removed, dangling⟩
      simp only [step, removed, Option.bind_eq_bind, Option.bind_some] at stepped
      cases stepped
      exact dangling.not_intact _ _

/-- The list is intact after every part of a sequence of calls exactly when
every removal in it leaves no node behind. -/
theorem always_intact_iff (operations : List (Operation D)) :
    (∀ first, first <+: operations →
      ∃ final, run step State.create first = some final ∧ final.Intact) ↔
      Guarded step LeavesNoNode State.create operations :=
  always_iff_guarded step_linked (fun _ => State.Linked.intact) step_broken linked_initial

end TellyDB.Utils.LinkedList
