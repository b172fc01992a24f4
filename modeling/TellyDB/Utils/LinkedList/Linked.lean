import TellyDB.Utils.LinkedList
import Mathlib.Data.List.Nodup

/-!
Owns what a linked list promises (every walk visits its live nodes in order and
ends, no link leads to a freed node) and the invariant that carries it through
insertions. Operations at the back are operations at the front of the mirror
image.
-/

namespace TellyDB.Utils.LinkedList

open Lib
open Lib.LinkedSegment

variable {D : Type}

/-- The list over `nodes`, as its users see it. -/
structure IntactOver (memory : Memory D) (list : LinkedList) (nodes : List (Nat × D)) : Prop where
  /-- Following `next` from `begin` visits the nodes in order and ends in NULL. -/
  forward : ∀ index, llGetFromIndex memory list index .front =
    some ((nodes[index]?).map Prod.fst)
  /-- Following `prev` from `end` visits them in reverse and ends in NULL. -/
  backward : ∀ index, llGetFromIndex memory list index .back =
    some ((nodes.reverse[index]?).map Prod.fst)
  stored : ∀ node ∈ nodes, ∃ cell, memory node.1 = some cell ∧ cell.data = node.2
  size_eq : list.size = nodes.length
  distinct : (nodes.map Prod.fst).Nodup
  live : ∀ address, (memory address).isSome ↔ address ∈ nodes.map Prod.fst
  /-- No link of a live node refers to a removed one. -/
  noDangling : ∀ address cell target, memory address = some cell →
    (cell.prev = some target ∨ cell.next = some target) → (memory target).isSome
  /-- A save reads the data in order. -/
  collected : collectList memory list = some (nodes.map Prod.snd)
  /-- Freeing the list frees every node exactly once. -/
  cleared : llClear memory list = some (fun _ => none, nodes.map Prod.fst)

/-- The list holds `contents`. -/
def Intact (memory : Memory D) (list : LinkedList) (contents : List D) : Prop :=
  ∃ nodes, nodes.map Prod.snd = contents ∧ IntactOver memory list nodes

/-- The invariant of an intact list. -/
structure Linked (memory : Memory D) (list : LinkedList) (nodes : List (Nat × D)) : Prop where
  segment : Segment memory none nodes none
  begin_eq : list.beginNode = first nodes none
  end_eq : list.endNode = last none nodes
  size_eq : list.size = nodes.length
  distinct : (nodes.map Prod.fst).Nodup
  live : ∀ address, (memory address).isSome ↔ address ∈ nodes.map Prod.fst

/-! ## The mirror image -/

/-- The list read from the other end. -/
def flip (list : LinkedList) : LinkedList := ⟨list.endNode, list.beginNode, list.size⟩

theorem Linked.mirror {memory : Memory D} {list : LinkedList} {nodes : List (Nat × D)}
    (linked : Linked memory list nodes) : Linked (mirror memory) list.flip nodes.reverse where
  segment := linked.segment.mirror
  begin_eq := linked.end_eq
  end_eq := by
    rw [last, List.reverse_reverse]
    exact linked.begin_eq
  size_eq := by rw [List.length_reverse]; exact linked.size_eq
  distinct := by
    rw [List.map_reverse, List.nodup_reverse]
    exact linked.distinct
  live := by
    intro address
    rw [isSome_mirror, linked.live, List.map_reverse, List.mem_reverse]

theorem setNext_eq_mirror (memory : Memory D) (pointer target : Option Nat) :
    setNext memory pointer target = (setPrev (mirror memory) pointer target).map mirror := by
  cases pointer with
  | none => rfl
  | some address =>
      cases held : memory address with
      | none => simp [setNext, setPrev, held, mirror_of_none held]
      | some node =>
          simp [setNext, setPrev, mirror_update, held, mirror_of_some held, Cell.mirror]

theorem setPrev_eq_mirror (memory : Memory D) (pointer target : Option Nat) :
    setPrev memory pointer target = (setNext (mirror memory) pointer target).map mirror := by
  rw [setNext_eq_mirror, mirror_mirror, Option.map_map]
  simp [Function.comp_def]

theorem freeNode_eq_mirror (memory : Memory D) (pointer : Option Nat) :
    freeNode memory pointer = (freeNode (mirror memory) pointer).map mirror := by
  cases pointer with
  | none => rfl
  | some address =>
      cases held : memory address with
      | none => simp [freeNode, held, mirror_of_none held]
      | some node => simp [freeNode, mirror_update, held, mirror_of_some held]

/-- The result of an operation on the mirror image, seen from this side. -/
def unflip {R : Type} (result : Memory D × LinkedList × R) : Memory D × LinkedList × R :=
  (mirror result.1, result.2.1.flip, result.2.2)

theorem llInsertBack_eq_mirror (memory : Memory D) (list : LinkedList) (address : Nat) (data : D) :
    llInsertBack memory list address data =
      (llInsertFront (mirror memory) list.flip address data).map unflip := by
  cases held : memory address with
  | some node =>
      simp [llInsertBack, llInsertFront, llCreateNode, held, mirror_of_some held, unflip, flip]
  | none =>
      have created : mirror (Function.update memory address (some ⟨data, none, none⟩)) =
          Function.update (mirror memory) address (some ⟨data, none, none⟩) := by
        rw [mirror_update]
        rfl
      by_cases empty : list.size = 0
      · simp [llInsertBack, llInsertFront, llCreateNode, held, mirror_of_none held, empty, unflip,
          flip, ← created]
      · simp only [llInsertBack, llInsertFront, llCreateNode, held, mirror_of_none held, flip,
          empty, ↓reduceIte]
        rw [setNext_eq_mirror, created]
        cases setPrev (Function.update (mirror memory) address (some ⟨data, none, none⟩))
            list.endNode (some address) with
        | none => rfl
        | some moved =>
            simp only [Option.map_some, Option.bind_eq_bind, Option.bind_some]
            rw [setPrev_eq_mirror, mirror_mirror]
            cases setNext moved (some address) list.endNode <;> rfl

theorem llRemoveBack_eq_mirror (memory : Memory D) (list : LinkedList) :
    llRemoveBack memory list = (llRemoveFront (mirror memory) list.flip).map unflip := by
  by_cases empty : list.size = 0
  · cases list
    simp_all [llRemoveBack, llRemoveFront, unflip, flip]
  · simp only [llRemoveBack, llRemoveFront, flip, empty, ↓reduceIte]
    rw [freeNode_eq_mirror]
    cases list.endNode with
    | none => rfl
    | some address =>
        cases held : memory address with
        | none => simp [readNode, held, mirror_of_none held]
        | some node =>
            simp [readNode, freeNode, held, mirror_of_some held, unflip, flip, Cell.mirror]
            rfl

/-! ## What the invariant gives -/

theorem collectFrom_segment {memory : Memory D} {nodes : List (Nat × D)} {before : Option Nat}
    (segment : Segment memory before nodes none) {turns : Nat} (enough : nodes.length < turns) :
    collectFrom memory turns (first nodes none) = some (nodes.map Prod.snd) := by
  induction nodes generalizing before turns with
  | nil =>
      cases turns with
      | zero => exact absurd enough (Nat.not_lt_zero _)
      | succ turns => rfl
  | cons node rest inductionHypothesis =>
      cases turns with
      | zero => exact absurd enough (Nat.not_lt_zero _)
      | succ turns =>
          rcases segment with ⟨held, segment⟩
          have collected := inductionHypothesis segment (Nat.lt_of_succ_lt_succ enough)
          simp [collectFrom, held, collected]

theorem llClearFrom_segment {memory : Memory D} {nodes : List (Nat × D)} {before : Option Nat}
    (segment : Segment memory before nodes none) (distinct : (nodes.map Prod.fst).Nodup)
    {turns : Nat} (enough : nodes.length < turns) :
    llClearFrom turns memory (first nodes none) =
      some (fun address => if address ∈ nodes.map Prod.fst then none else memory address,
        nodes.map Prod.fst) := by
  induction nodes generalizing memory before turns with
  | nil =>
      cases turns with
      | zero => exact absurd enough (Nat.not_lt_zero _)
      | succ turns => simp [llClearFrom, first]
  | cons node rest inductionHypothesis =>
      cases turns with
      | zero => exact absurd enough (Nat.not_lt_zero _)
      | succ turns =>
          rcases segment with ⟨held, segment⟩
          rw [List.map_cons, List.nodup_cons] at distinct
          rcases distinct with ⟨fresh, distinct⟩
          have freed : freeNode memory (some node.1) =
              some (Function.update memory node.1 none) := by
            simp [freeNode, held]
          have rest_segment : Segment (Function.update memory node.1 none) (some node.1) rest none := by
            apply segment.frame
            intro address member
            apply Function.update_of_ne
            rintro rfl
            exact fresh member
          have cleared := inductionHypothesis rest_segment distinct (Nat.lt_of_succ_lt_succ enough)
          rw [first_cons, llClearFrom, held]
          simp only [Option.bind_eq_bind, Option.bind_some, freed, cleared, List.map_cons]
          congr 2
          funext address
          by_cases own : address = node.1
          · simp [own]
          · simp only [Function.update_of_ne own, List.mem_cons, own, false_or]

/-- The invariant gives its users everything a list promises. -/
theorem Linked.intact {memory : Memory D} {list : LinkedList} {nodes : List (Nat × D)}
    (linked : Linked memory list nodes) : IntactOver memory list nodes where
  forward := by
    intro index
    rw [llGetFromIndex, linked.begin_eq]
    exact linked.segment.walk_all index
  backward := by
    intro index
    have mirrored := linked.mirror
    rw [llGetFromIndex, ← walk_mirror, show list.endNode = list.flip.beginNode from rfl,
      mirrored.begin_eq]
    exact mirrored.segment.walk_all index
  stored := fun _ member => linked.segment.live member
  size_eq := linked.size_eq
  distinct := linked.distinct
  live := linked.live
  noDangling := by
    intro address cell target held linksTo
    have member : address ∈ nodes.map Prod.fst := by
      rw [← linked.live, held]
      rfl
    rcases linked.segment.links member held with ⟨prev, next⟩
    rw [linked.live]
    rcases linksTo with toPrev | toNext
    · rcases prev with null | ⟨inside, insideMember, prev_eq⟩
      · rw [null] at toPrev
        cases toPrev
      · rw [prev_eq] at toPrev
        cases toPrev
        exact insideMember
    · rcases next with null | ⟨inside, insideMember, next_eq⟩
      · rw [null] at toNext
        cases toNext
      · rw [next_eq] at toNext
        cases toNext
        exact insideMember
  collected := by
    rw [collectList, linked.begin_eq, linked.size_eq]
    exact collectFrom_segment linked.segment (Nat.lt_succ_self _)
  cleared := by
    rw [llClear, linked.begin_eq, linked.size_eq,
      llClearFrom_segment linked.segment linked.distinct (Nat.lt_succ_self _)]
    congr 2
    funext address
    split
    · rfl
    · next absent =>
        rw [← linked.live] at absent
        exact Option.not_isSome_iff_eq_none.mp absent

/-! ## The four operations -/

theorem linked_create : Linked (fun _ => none : Memory D) llCreate [] where
  segment := trivial
  begin_eq := rfl
  end_eq := rfl
  size_eq := rfl
  distinct := List.nodup_nil
  live := by simp

/-- Inserting at the front, where the allocator hands out a dead address. -/
theorem Linked.llInsertFront {memory : Memory D} {list : LinkedList} {nodes : List (Nat × D)}
    (linked : Linked memory list nodes) {address : Nat} (dead : memory address = none) (data : D) :
    ∃ after list', LinkedList.llInsertFront memory list address data =
        some (after, list', some address) ∧ Linked after list' ((address, data) :: nodes) := by
  have fresh : address ∉ nodes.map Prod.fst := by
    rw [← linked.live, dead]
    exact Bool.false_ne_true
  have live_cons : ∀ (after : Memory D), (∀ other, other ≠ address →
      (after other).isSome = (memory other).isSome) → (after address).isSome →
      ∀ other, (after other).isSome ↔ other ∈ ((address, data) :: nodes).map Prod.fst := by
    intro after others own other
    rw [List.map_cons, List.mem_cons, ← linked.live]
    by_cases same : other = address
    · simp [same, own]
    · simp [same, others other same]
  cases nodes with
  | nil =>
      have empty : list.size = 0 := linked.size_eq
      refine ⟨Function.update memory address (some ⟨data, none, none⟩),
        ⟨some address, some address, 1⟩, ?_, ?_⟩
      · simp [LinkedList.llInsertFront, llCreateNode, dead, empty]
      · refine ⟨⟨Function.update_self .., trivial⟩, rfl, rfl, rfl, List.nodup_singleton _,
          live_cons _ (fun other different => ?_) ?_⟩
        · rw [Function.update_of_ne different]
        · rw [Function.update_self]
          rfl
  | cons node rest =>
      have nonempty : list.size ≠ 0 := by
        rw [linked.size_eq]
        exact Nat.succ_ne_zero _
      have begin_eq : list.beginNode = some node.1 := linked.begin_eq
      have different : node.1 ≠ address := by
        rintro rfl
        exact fresh List.mem_cons_self
      rcases linked.segment with ⟨held, segment⟩
      let relinked := Function.update (Function.update memory address (some ⟨data, none, none⟩))
        node.1 (some ⟨node.2, some address, first rest none⟩)
      let after := Function.update relinked address (some ⟨data, none, some node.1⟩)
      refine ⟨after, { list with beginNode := some address, size := list.size + 1 }, ?_, ?_⟩
      · simp [LinkedList.llInsertFront, llCreateNode, dead, nonempty, begin_eq, setPrev, setNext,
          Function.update_of_ne different, held, Function.update_of_ne different.symm, after,
          relinked]
      · have own : after address = some ⟨data, none, some node.1⟩ := Function.update_self ..
        have second : after node.1 = some ⟨node.2, some address, first rest none⟩ := by
          rw [show after node.1 = relinked node.1 from Function.update_of_ne different _ _]
          exact Function.update_self ..
        have others : ∀ other, other ≠ address → other ≠ node.1 → after other = memory other := by
          intro other notOwn notSecond
          rw [show after other = relinked other from Function.update_of_ne notOwn _ _,
            show relinked other = _ from Function.update_of_ne notSecond _ _,
            Function.update_of_ne notOwn]
        have distinct := linked.distinct
        rw [List.map_cons, List.nodup_cons] at distinct
        refine ⟨⟨own, second, segment.frame fun other member => ?_⟩, rfl, ?_, ?_, ?_,
          live_cons after (fun other notOwn => ?_) (by rw [own]; rfl)⟩
        · apply others
          · rintro rfl
            exact fresh (List.mem_cons_of_mem _ member)
          · rintro rfl
            exact distinct.1 member
        · rw [last_cons]
          exact linked.end_eq.trans (last_of_ne_nil (List.cons_ne_nil _ _) _ _)
        · show list.size + 1 = _
          rw [linked.size_eq]
          rfl
        · exact List.nodup_cons.mpr ⟨fresh, linked.distinct⟩
        · by_cases notSecond : other = node.1
          · rw [notSecond, second, held]
            rfl
          · rw [others other notOwn notSecond]

theorem Linked.llInsertBack {memory : Memory D} {list : LinkedList} {nodes : List (Nat × D)}
    (linked : Linked memory list nodes) {address : Nat} (dead : memory address = none) (data : D) :
    ∃ after list', LinkedList.llInsertBack memory list address data =
        some (after, list', some address) ∧ Linked after list' (nodes ++ [(address, data)]) := by
  rcases linked.mirror.llInsertFront (mirror_of_none dead) data with ⟨after, list', inserted, kept⟩
  refine ⟨LinkedSegment.mirror after, list'.flip, ?_, ?_⟩
  · rw [llInsertBack_eq_mirror, inserted]
    rfl
  · have back := kept.mirror
    rwa [List.reverse_cons, List.reverse_reverse] at back

theorem Linked.remove_empty {memory : Memory D} {list : LinkedList}
    (linked : Linked memory list []) : llRemoveFront memory list = some (memory, list, false) ∧
      llRemoveBack memory list = some (memory, list, false) := by
  have empty : list.size = 0 := linked.size_eq
  simp [llRemoveFront, llRemoveBack, empty]

/-- Removing the only node empties the list. -/
theorem Linked.llRemoveFront {memory : Memory D} {list : LinkedList} {node : Nat × D}
    (linked : Linked memory list [node]) :
    ∃ after list', LinkedList.llRemoveFront memory list = some (after, list', true) ∧
      Linked after list' [] := by
  have begin_eq : list.beginNode = some node.1 := linked.begin_eq
  have single : list.size = 1 := linked.size_eq
  rcases linked.segment with ⟨held, -⟩
  refine ⟨Function.update memory node.1 none, ⟨none, none, 0⟩, ?_, trivial, rfl, rfl, rfl,
    List.nodup_nil, fun address => ?_⟩
  · simp [LinkedList.llRemoveFront, readNode, freeNode, begin_eq, single, held, first]
  · by_cases own : address = node.1
    · simp [own]
    · rw [Function.update_of_ne own, linked.live]
      simp [own]

theorem Linked.llRemoveBack {memory : Memory D} {list : LinkedList} {node : Nat × D}
    (linked : Linked memory list [node]) :
    ∃ after list', LinkedList.llRemoveBack memory list = some (after, list', true) ∧
      Linked after list' [] := by
  rcases linked.mirror.llRemoveFront with ⟨after, list', removed, kept⟩
  refine ⟨LinkedSegment.mirror after, list'.flip, ?_, kept.mirror⟩
  rw [llRemoveBack_eq_mirror, removed]
  rfl

/-- Some live node links to a node that is not live. -/
def Dangling (memory : Memory D) : Prop :=
  ∃ address cell target, memory address = some cell ∧
    (cell.prev = some target ∨ cell.next = some target) ∧ memory target = none

theorem Dangling.not_intact {memory : Memory D} (dangling : Dangling memory) (list : LinkedList)
    (contents : List D) : ¬Intact memory list contents := by
  rcases dangling with ⟨address, cell, target, held, linksTo, freed⟩
  rintro ⟨nodes, -, intact⟩
  have live := intact.noDangling address cell target held linksTo
  rw [freed] at live
  cases live

theorem Dangling.mirror {memory : Memory D} (dangling : Dangling memory) :
    Dangling (LinkedSegment.mirror memory) := by
  rcases dangling with ⟨address, cell, target, held, linksTo, freed⟩
  exact ⟨address, cell.mirror, target, mirror_of_some held, linksTo.symm, mirror_of_none freed⟩

/-- Removing the first of several nodes leaves the second linked back to it. -/
theorem Linked.llRemoveFront_dangling {memory : Memory D} {list : LinkedList}
    {node second : Nat × D} {rest : List (Nat × D)}
    (linked : Linked memory list (node :: second :: rest)) :
    ∃ after list', LinkedList.llRemoveFront memory list = some (after, list', true) ∧
      Dangling after := by
  have begin_eq : list.beginNode = some node.1 := linked.begin_eq
  have nonempty : list.size ≠ 0 := by
    rw [linked.size_eq]
    exact Nat.succ_ne_zero _
  have distinct := linked.distinct
  rw [List.map_cons, List.nodup_cons] at distinct
  have different : second.1 ≠ node.1 := by
    intro same
    exact distinct.1 (by simp [same])
  rcases linked.segment with ⟨held, secondHeld, -⟩
  refine ⟨Function.update memory node.1 none,
    ⟨some second.1, if list.size = 1 then none else list.endNode, list.size - 1⟩, ?_, second.1,
    ⟨second.2, some node.1, first rest none⟩, node.1, ?_, Or.inl rfl, Function.update_self ..⟩
  · simp [LinkedList.llRemoveFront, readNode, freeNode, begin_eq, nonempty, held]
  · rw [Function.update_of_ne different, secondHeld]

theorem Linked.llRemoveBack_dangling {memory : Memory D} {list : LinkedList}
    {node second : Nat × D} {rest : List (Nat × D)}
    (linked : Linked memory list (rest ++ [second, node])) :
    ∃ after list', LinkedList.llRemoveBack memory list = some (after, list', true) ∧
      Dangling after := by
  have mirrored := linked.mirror
  rw [show (rest ++ [second, node]).reverse = node :: second :: rest.reverse by simp] at mirrored
  rcases mirrored.llRemoveFront_dangling with ⟨after, list', removed, dangling⟩
  refine ⟨LinkedSegment.mirror after, list'.flip, ?_, dangling.mirror⟩
  rw [llRemoveBack_eq_mirror, removed]
  rfl

end TellyDB.Utils.LinkedList
