import Mathlib.Logic.Function.Basic
import Mathlib.Data.List.Basic

/-!
Owns doubly linked segments in a memory of cells: what it means that a list of
addresses is linked both ways, what a walk over it reads, and what a store into
one cell changes. Swapping the two links turns every fact about one end into
the fact about the other.
-/

namespace TellyDB.Lib.LinkedSegment

variable {D : Type}

/-- A cell with its two links; `none` is the null pointer. -/
structure Cell (D : Type) where
  data : D
  prev : Option Nat
  next : Option Nat

/-- The live cells by address. -/
abbrev Memory (D : Type) := Nat → Option (Cell D)

/-- The address a pointer to the first of `nodes` holds, `after` when there is none. -/
def first (nodes : List (Nat × D)) (after : Option Nat) : Option Nat :=
  match nodes with
  | [] => after
  | node :: _ => some node.1

/-- `nodes` are linked both ways, between the pointers `before` and `after`. -/
def Segment (memory : Memory D) : Option Nat → List (Nat × D) → Option Nat → Prop
  | _, [], _ => True
  | before, (address, data) :: rest, after =>
      memory address = some ⟨data, before, first rest after⟩ ∧
        Segment memory (some address) rest after

/-- The address a pointer to the last of `nodes` holds, `before` when there is none. -/
def last (before : Option Nat) (nodes : List (Nat × D)) : Option Nat :=
  first nodes.reverse before

/-- Follows one link `count` times, stopping at a null pointer; `none` when a
cell on the way is not live. -/
def walk (memory : Memory D) (link : Cell D → Option Nat) : Nat → Option Nat → Option (Option Nat)
  | 0, pointer => some pointer
  | _ + 1, none => some none
  | count + 1, some address => do
      let cell ← memory address
      walk memory link count (link cell)

/-! ## Segments -/

@[simp] theorem first_cons (node : Nat × D) (rest : List (Nat × D)) (after : Option Nat) :
    first (node :: rest) after = some node.1 := rfl

theorem first_append (front back : List (Nat × D)) (after : Option Nat) :
    first (front ++ back) after = first front (first back after) := by
  cases front <;> rfl

@[simp] theorem last_nil (before : Option Nat) : last before ([] : List (Nat × D)) = before := rfl

theorem last_cons (before : Option Nat) (node : Nat × D) (rest : List (Nat × D)) :
    last before (node :: rest) = last (some node.1) rest := by
  rw [last, List.reverse_cons, first_append]
  rfl

@[simp] theorem last_append_singleton (before : Option Nat) (nodes : List (Nat × D))
    (node : Nat × D) : last before (nodes ++ [node]) = some node.1 := by
  rw [last, List.reverse_append]
  rfl

theorem last_of_ne_nil {nodes : List (Nat × D)} (nonempty : nodes ≠ [])
    (left right : Option Nat) : last left nodes = last right nodes := by
  cases nodes with
  | nil => exact absurd rfl nonempty
  | cons node rest => rw [last_cons, last_cons]

theorem segment_append {memory : Memory D} {front back : List (Nat × D)}
    {before after : Option Nat} :
    Segment memory before (front ++ back) after ↔
      Segment memory before front (first back after) ∧
        Segment memory (last before front) back after := by
  induction front generalizing before with
  | nil => simp [Segment]
  | cons node rest inductionHypothesis =>
      rw [List.cons_append, Segment, Segment, inductionHypothesis, first_append, last_cons,
        and_assoc]

theorem first_drop (nodes : List (Nat × D)) (position : Nat) :
    first (nodes.drop position) none = (nodes[position]?).map Prod.fst := by
  rw [← List.head?_drop]
  cases nodes.drop position <;> rfl

/-- A segment only depends on its own cells. -/
theorem Segment.frame {memory other : Memory D} {nodes : List (Nat × D)}
    {before after : Option Nat} (segment : Segment memory before nodes after)
    (agree : ∀ address ∈ nodes.map Prod.fst, other address = memory address) :
    Segment other before nodes after := by
  induction nodes generalizing before with
  | nil => trivial
  | cons node rest inductionHypothesis =>
      rcases segment with ⟨held, segment⟩
      refine ⟨?_, inductionHypothesis segment fun address member => ?_⟩
      · rw [agree node.1 List.mem_cons_self, held]
      · exact agree address (List.mem_cons_of_mem _ member)

/-- Every node of a segment is live and holds its data. -/
theorem Segment.live {memory : Memory D} {nodes : List (Nat × D)} {before after : Option Nat}
    (segment : Segment memory before nodes after) {address : Nat} {data : D}
    (member : (address, data) ∈ nodes) :
    ∃ cell, memory address = some cell ∧ cell.data = data := by
  induction nodes generalizing before with
  | nil => cases member
  | cons node rest inductionHypothesis =>
      rcases segment with ⟨held, segment⟩
      rcases List.mem_cons.mp member with rfl | inRest
      · exact ⟨_, held, rfl⟩
      · exact inductionHypothesis segment inRest

/-- The links of a segment lead into it, or to the pointers around it. -/
theorem Segment.links {memory : Memory D} {nodes : List (Nat × D)} {before after : Option Nat}
    (segment : Segment memory before nodes after) {address : Nat} {cell : Cell D}
    (member : address ∈ nodes.map Prod.fst) (held : memory address = some cell) :
    (cell.prev = before ∨ ∃ target ∈ nodes.map Prod.fst, cell.prev = some target) ∧
      (cell.next = after ∨ ∃ target ∈ nodes.map Prod.fst, cell.next = some target) := by
  induction nodes generalizing before with
  | nil => cases member
  | cons node rest inductionHypothesis =>
      rcases segment with ⟨own, segment⟩
      rw [List.map_cons, List.mem_cons] at member
      rcases member with rfl | inRest
      · rw [own] at held
        cases held
        refine ⟨Or.inl rfl, ?_⟩
        cases rest with
        | nil => exact Or.inl rfl
        | cons second others => exact Or.inr ⟨second.1, by simp, rfl⟩
      · rcases inductionHypothesis segment inRest with ⟨prev, next⟩
        refine ⟨?_, ?_⟩
        · rcases prev with own | ⟨target, inside, linked⟩
          · exact Or.inr ⟨node.1, by simp, own⟩
          · exact Or.inr ⟨target, by simp [inside], linked⟩
        · rcases next with out | ⟨target, inside, linked⟩
          · exact Or.inl out
          · exact Or.inr ⟨target, by simp [inside], linked⟩

/-! ## Walks -/

theorem walk_null (memory : Memory D) (link : Cell D → Option Nat) (count : Nat) :
    walk memory link count none = some none := by
  cases count <;> rfl

/-- A segment between null pointers is walked without leaving it. -/
theorem Segment.walk_all {memory : Memory D} {nodes : List (Nat × D)} {before : Option Nat}
    (segment : Segment memory before nodes none) (count : Nat) :
    walk memory Cell.next count (first nodes none) = some ((nodes[count]?).map Prod.fst) := by
  induction nodes generalizing before count with
  | nil => rw [show first ([] : List (Nat × D)) none = none from rfl, walk_null]; rfl
  | cons node rest inductionHypothesis =>
      cases count with
      | zero => rfl
      | succ count =>
          rcases segment with ⟨held, segment⟩
          rw [first_cons, walk, held]
          exact inductionHypothesis segment count

/-! ## The mirror image -/

/-- The cell with its links swapped. -/
def Cell.mirror (cell : Cell D) : Cell D := ⟨cell.data, cell.next, cell.prev⟩

/-- The memory with the links of every cell swapped. -/
def mirror (memory : Memory D) : Memory D := fun address => (memory address).map Cell.mirror

theorem mirror_of_none {memory : Memory D} {address : Nat} (held : memory address = none) :
    mirror memory address = none := by
  rw [mirror, held]
  rfl

theorem mirror_of_some {memory : Memory D} {address : Nat} {cell : Cell D}
    (held : memory address = some cell) : mirror memory address = some cell.mirror := by
  rw [mirror, held]
  rfl

@[simp] theorem mirror_mirror (memory : Memory D) : mirror (mirror memory) = memory := by
  funext address
  cases held : memory address with
  | none => simp [mirror, held]
  | some cell => simp [mirror, held, Cell.mirror]

theorem mirror_update (memory : Memory D) (address : Nat) (cell : Option (Cell D)) :
    mirror (Function.update memory address cell) =
      Function.update (mirror memory) address (cell.map Cell.mirror) := by
  funext other
  by_cases same : other = address
  · rw [same, Function.update_self, mirror, Function.update_self]
  · rw [Function.update_of_ne same, mirror, mirror, Function.update_of_ne same]

theorem isSome_mirror (memory : Memory D) (address : Nat) :
    (mirror memory address).isSome = (memory address).isSome := by
  rw [mirror, Option.isSome_map]

/-- A segment read backwards is a segment of the mirror image. -/
theorem Segment.mirror {memory : Memory D} {nodes : List (Nat × D)} {before after : Option Nat}
    (segment : Segment memory before nodes after) :
    Segment (mirror memory) after nodes.reverse before := by
  induction nodes generalizing before with
  | nil => trivial
  | cons node rest inductionHypothesis =>
      rcases segment with ⟨held, segment⟩
      rw [List.reverse_cons, segment_append]
      refine ⟨inductionHypothesis segment, ?_, trivial⟩
      rw [LinkedSegment.mirror, held, last, List.reverse_reverse]
      rfl

/-- Walking `prev` is walking `next` in the mirror image. -/
theorem walk_mirror (memory : Memory D) (count : Nat) (pointer : Option Nat) :
    walk (mirror memory) Cell.next count pointer = walk memory Cell.prev count pointer := by
  induction count generalizing pointer with
  | zero => rfl
  | succ count inductionHypothesis =>
      cases pointer with
      | none => rfl
      | some address =>
          cases held : memory address with
          | none => simp [walk, mirror, held]
          | some cell =>
              rw [walk, walk, mirror, held]
              exact inductionHypothesis cell.prev

end TellyDB.Lib.LinkedSegment
