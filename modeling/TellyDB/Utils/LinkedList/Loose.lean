import TellyDB.Utils.LinkedList.Linked

/-!
Owns lists after removals: the links between their nodes are intact, but the link before the
first and the one behind the last may lead to a node that was freed. Each operation leaves such
a list, and a walk that follows one of these two links fails.
-/

namespace TellyDB.Utils.LinkedList

open Lib
open Lib.LinkedSegment

variable {D : Type}

/-- The pointer is NULL or leads to a freed node. -/
def Ends (memory : Memory D) (pointer : Option Nat) : Prop :=
  ∀ address, pointer = some address → memory address = none

/-- The list over `nodes`, with the links around them. -/
structure Loose (memory : Memory D) (list : LinkedList) (nodes : List (Nat × D))
    (before after : Option Nat) : Prop where
  segment : Segment memory before nodes after
  begin_eq : list.beginNode = first nodes none
  end_eq : list.endNode = last none nodes
  size_eq : list.size = nodes.length
  distinct : (nodes.map Prod.fst).Nodup
  live : ∀ address, (memory address).isSome ↔ address ∈ nodes.map Prod.fst
  front_ends : Ends memory before
  back_ends : Ends memory after

theorem ends_null (memory : Memory D) : Ends memory none := by
  intro address same
  cases same

theorem Linked.loose {memory : Memory D} {list : LinkedList} {nodes : List (Nat × D)}
    (linked : Linked memory list nodes) : Loose memory list nodes none none :=
  { linked with
    front_ends := ends_null memory
    back_ends := ends_null memory }

section Rules

variable {memory : Memory D} {list : LinkedList} {nodes : List (Nat × D)}
  {before after : Option Nat}

theorem Ends.mirror (ends : Ends memory before) : Ends (mirror memory) before :=
  fun address same => mirror_of_none (ends address same)

theorem Loose.mirror (loose : Loose memory list nodes before after) :
    Loose (mirror memory) list.flip nodes.reverse after before where
  segment := loose.segment.mirror
  begin_eq := loose.end_eq
  end_eq := by
    rw [last, List.reverse_reverse]
    exact loose.begin_eq
  size_eq := by rw [List.length_reverse]; exact loose.size_eq
  distinct := by
    rw [List.map_reverse, List.nodup_reverse]
    exact loose.distinct
  live := by
    intro address
    rw [isSome_mirror, loose.live, List.map_reverse, List.mem_reverse]
  front_ends := loose.back_ends.mirror
  back_ends := loose.front_ends.mirror

theorem Loose.dead_iff (loose : Loose memory list nodes before after) (address : Nat) :
    memory address = none ↔ address ∉ nodes.map Prod.fst := by
  rw [← loose.live, Option.not_isSome_iff_eq_none]

/-! ## Walks -/

/-- The data of the node that `count` links lead to, or none where they lead to NULL. -/
def readAt (memory : Memory D) (link : Cell D → Option Nat) (count : Nat) (pointer : Option Nat) :
    Option (Option D) := do
  match ← walk memory link count pointer with
  | none => some none
  | some address => do
      let node ← memory address
      some (some node.data)

/-- What a walk over `data` reads, behind which the link is NULL or leads to a freed node. -/
def lookup (data : List D) (after : Option Nat) (index : Nat) : Option (Option D) :=
  match data[index]? with
  | some element => some (some element)
  | none => if after.isSome then none else some none

theorem readAt_end (ends : Ends memory after) (count : Nat) :
    readAt memory Cell.next count after = if after.isSome then none else some none := by
  cases after with
  | none => simp [readAt, walk_null]
  | some address =>
      have dead := ends address rfl
      cases count <;> simp [readAt, walk, dead]

/-- A walk reads the data in order, and fails behind them where the last link is no NULL. -/
theorem readAt_segment (segment : Segment memory before nodes after) (ends : Ends memory after)
    (count : Nat) :
    readAt memory Cell.next count (first nodes after) = lookup (nodes.map Prod.snd) after count := by
  induction nodes generalizing before count with
  | nil => exact readAt_end ends count
  | cons node rest inductionHypothesis =>
      obtain ⟨held, segment⟩ := segment
      cases count with
      | zero => simp [readAt, walk, held, lookup]
      | succ count =>
          have further := inductionHypothesis segment count
          rw [readAt] at further
          rw [readAt, first_cons, walk, held]
          simpa [lookup] using further

theorem readAt_mirror (count : Nat) (pointer : Option Nat) :
    readAt (LinkedSegment.mirror memory) Cell.next count pointer =
      readAt memory Cell.prev count pointer := by
  rw [readAt, readAt, walk_mirror]
  cases walk memory Cell.prev count pointer with
  | none => rfl
  | some reached =>
      cases reached with
      | none => rfl
      | some address =>
          cases held : memory address with
          | none => simp [mirror_of_none held, held]
          | some cell => simp [mirror_of_some held, held, Cell.mirror]

theorem first_nonempty (nonempty : nodes ≠ []) (pointer other : Option Nat) :
    first nodes pointer = first nodes other := by
  cases nodes with
  | nil => exact absurd rfl nonempty
  | cons node rest => rfl

theorem Loose.readAt_front (loose : Loose memory list nodes before after) (nonempty : nodes ≠ [])
    (count : Nat) :
    readAt memory Cell.next count list.beginNode = lookup (nodes.map Prod.snd) after count := by
  rw [loose.begin_eq, first_nonempty nonempty none after]
  exact readAt_segment loose.segment loose.back_ends count

theorem Loose.readAt_back (loose : Loose memory list nodes before after) (nonempty : nodes ≠ [])
    (count : Nat) : readAt memory Cell.prev count list.endNode =
      lookup (nodes.map Prod.snd).reverse before count := by
  rw [← readAt_mirror, ← List.map_reverse]
  exact loose.mirror.readAt_front (by simpa using nonempty) count

/-- The loop of a save reads every node, and fails behind the last one where its link is no
NULL. -/
theorem collectFrom_loose (segment : Segment memory before nodes after) (ends : Ends memory after)
    {turns : Nat} (enough : nodes.length < turns) :
    collectFrom memory turns (first nodes after) =
      if after.isSome then none else some (nodes.map Prod.snd) := by
  induction nodes generalizing before turns with
  | nil =>
      obtain ⟨turns, rfl⟩ : ∃ less, turns = less + 1 := ⟨turns - 1, by simp at enough; omega⟩
      cases after with
      | none => rfl
      | some address => simp [first, collectFrom, ends address rfl]
  | cons node rest inductionHypothesis =>
      obtain ⟨turns, rfl⟩ : ∃ less, turns = less + 1 := ⟨turns - 1, by simp at enough; omega⟩
      obtain ⟨held, segment⟩ := segment
      have collected := inductionHypothesis segment (Nat.lt_of_succ_lt_succ enough)
      rw [first_cons, collectFrom, held]
      simp only [Option.bind_eq_bind, Option.bind_some, collected]
      split <;> rfl

theorem Loose.collectList (loose : Loose memory list nodes before after) (nonempty : nodes ≠ []) :
    collectList memory list = if after.isSome then none else some (nodes.map Prod.snd) := by
  rw [LinkedList.collectList, loose.begin_eq, first_nonempty nonempty none after]
  exact collectFrom_loose loose.segment loose.back_ends (by rw [loose.size_eq]; omega)

/-- The loop of `ll_clear` frees every node, and fails behind the last one where its link is no
NULL. -/
theorem llClearFrom_loose (segment : Segment memory before nodes after) (ends : Ends memory after)
    (distinct : (nodes.map Prod.fst).Nodup) {turns : Nat} (enough : nodes.length < turns) :
    (after.isSome → llClearFrom turns memory (first nodes after) = none) ∧
      (after = none → ∃ freed, llClearFrom turns memory (first nodes after) =
        some (fun address => if address ∈ nodes.map Prod.fst then none else memory address,
          freed)) := by
  refine ⟨fun leads => ?_, fun null => ?_⟩
  · induction nodes generalizing memory before turns with
    | nil =>
        obtain ⟨turns, rfl⟩ : ∃ less, turns = less + 1 := ⟨turns - 1, by simp at enough; omega⟩
        obtain ⟨address, rfl⟩ := Option.isSome_iff_exists.mp leads
        simp [first, llClearFrom, ends address rfl]
    | cons node rest inductionHypothesis =>
        obtain ⟨turns, rfl⟩ : ∃ less, turns = less + 1 := ⟨turns - 1, by simp at enough; omega⟩
        obtain ⟨held, segment⟩ := segment
        rw [List.map_cons, List.nodup_cons] at distinct
        have kept : Segment (Function.update memory node.1 none) (some node.1) rest after := by
          apply segment.frame
          intro address member
          apply Function.update_of_ne
          rintro rfl
          exact distinct.1 member
        have still : Ends (Function.update memory node.1 none) after := by
          intro address same
          rw [Function.update_apply]
          split
          · rfl
          · exact ends address same
        have failed := inductionHypothesis kept still distinct.2 (Nat.lt_of_succ_lt_succ enough)
        simp [llClearFrom, freeNode, held, failed]
  · subst null
    exact ⟨_, llClearFrom_segment segment distinct enough⟩

theorem Loose.llClear (loose : Loose memory list nodes before after) (nonempty : nodes ≠ []) :
    (after.isSome → llClear memory list = none) ∧
      (after = none → ∃ freed, llClear memory list = some (fun _ => none, freed)) := by
  have enough : nodes.length < list.size + 1 := by
    rw [loose.size_eq]
    omega
  have cleared := llClearFrom_loose loose.segment loose.back_ends loose.distinct enough
  rw [LinkedList.llClear, loose.begin_eq, first_nonempty nonempty none after]
  refine ⟨cleared.1, fun null => ?_⟩
  obtain ⟨freed, ran⟩ := cleared.2 null
  refine ⟨freed, ?_⟩
  rw [ran]
  congr 2
  funext address
  split
  · rfl
  · next absent => exact (loose.dead_iff address).mpr absent

/-! ## Insertions and removals -/

/-- An insertion at the front, at an address that is not live and that the last link does not lead
to. -/
theorem Loose.llInsertFront (loose : Loose memory list nodes before after) {address : Nat}
    (dead : memory address = none) (apart : after ≠ some address) (data : D) :
    ∃ reached list', LinkedList.llInsertFront memory list address data =
        some (reached, list', some address) ∧
      Loose reached list' ((address, data) :: nodes) none (if nodes = [] then none else after) := by
  have fresh : address ∉ nodes.map Prod.fst := (loose.dead_iff address).mp dead
  cases nodes with
  | nil =>
      have empty : list.size = 0 := loose.size_eq
      refine ⟨Function.update memory address (some ⟨data, none, none⟩),
        ⟨some address, some address, 1⟩, ?_, ⟨Function.update_self .., trivial⟩, rfl, rfl, rfl,
        List.nodup_singleton _, fun other => ?_, ends_null _, ends_null _⟩
      · simp [LinkedList.llInsertFront, llCreateNode, dead, empty]
      · by_cases same : other = address
        · simp [same]
        · rw [Function.update_of_ne same, loose.live]
          simp [same]
  | cons node rest =>
      have nonempty : list.size ≠ 0 := by
        rw [loose.size_eq]
        exact Nat.succ_ne_zero _
      have begin_eq : list.beginNode = some node.1 := loose.begin_eq
      have different : node.1 ≠ address := by
        rintro rfl
        exact fresh List.mem_cons_self
      obtain ⟨held, segment⟩ := loose.segment
      have distinct := loose.distinct
      rw [List.map_cons, List.nodup_cons] at distinct
      let relinked := Function.update (Function.update memory address (some ⟨data, none, none⟩))
        node.1 (some ⟨node.2, some address, first rest after⟩)
      let reached := Function.update relinked address (some ⟨data, none, some node.1⟩)
      have own : reached address = some ⟨data, none, some node.1⟩ := Function.update_self ..
      have second : reached node.1 = some ⟨node.2, some address, first rest after⟩ := by
        rw [show reached node.1 = relinked node.1 from Function.update_of_ne different _ _]
        exact Function.update_self ..
      have others : ∀ other, other ≠ address → other ≠ node.1 → reached other = memory other := by
        intro other notOwn notSecond
        rw [show reached other = relinked other from Function.update_of_ne notOwn _ _,
          show relinked other = _ from Function.update_of_ne notSecond _ _,
          Function.update_of_ne notOwn]
      refine ⟨reached, { list with beginNode := some address, size := list.size + 1 }, ?_,
        ⟨own, second, segment.frame fun other member => ?_⟩, rfl, ?_, ?_,
        List.nodup_cons.mpr ⟨fresh, loose.distinct⟩, fun other => ?_, ends_null _, ?_⟩
      · simp [LinkedList.llInsertFront, llCreateNode, dead, nonempty, begin_eq, setPrev, setNext,
          Function.update_of_ne different, held, Function.update_of_ne different.symm, reached,
          relinked]
      · apply others
        · rintro rfl
          exact fresh (List.mem_cons_of_mem _ member)
        · rintro rfl
          exact distinct.1 member
      · rw [last_cons]
        exact loose.end_eq.trans (last_of_ne_nil (List.cons_ne_nil _ _) _ _)
      · show list.size + 1 = _
        rw [loose.size_eq]
        rfl
      · rw [List.map_cons, List.mem_cons, ← loose.live]
        by_cases notOwn : other = address
        · simp [notOwn, own]
        · by_cases notSecond : other = node.1
          · simp [notSecond, second, held]
          · simp [notOwn, others other notOwn notSecond]
      · rw [if_neg (List.cons_ne_nil _ _)]
        intro other same
        have gone := loose.back_ends other same
        rw [others other, gone]
        · rintro rfl
          exact apart same
        · rintro rfl
          rw [held] at gone
          cases gone

theorem Loose.llInsertBack (loose : Loose memory list nodes before after) {address : Nat}
    (dead : memory address = none) (apart : before ≠ some address) (data : D) :
    ∃ reached list', LinkedList.llInsertBack memory list address data =
        some (reached, list', some address) ∧
      Loose reached list' (nodes ++ [(address, data)]) (if nodes = [] then none else before)
        none := by
  obtain ⟨reached, list', inserted, kept⟩ :=
    loose.mirror.llInsertFront (mirror_of_none dead) apart data
  refine ⟨LinkedSegment.mirror reached, list'.flip, ?_, ?_⟩
  · rw [llInsertBack_eq_mirror, inserted]
    rfl
  · have back := kept.mirror
    simpa using back

/-- A removal at the front that leaves a node, whose link then leads to the one that is freed. -/
theorem Loose.llRemoveFront {node second : Nat × D} {rest : List (Nat × D)}
    (loose : Loose memory list (node :: second :: rest) before after) :
    ∃ reached list', LinkedList.llRemoveFront memory list = some (reached, list', true) ∧
      Loose reached list' (second :: rest) (some node.1) after := by
  have begin_eq : list.beginNode = some node.1 := loose.begin_eq
  have size_eq : list.size = rest.length + 2 := loose.size_eq
  obtain ⟨held, segment⟩ := loose.segment
  have distinct := loose.distinct
  rw [List.map_cons, List.nodup_cons] at distinct
  refine ⟨Function.update memory node.1 none, ⟨some second.1, list.endNode, list.size - 1⟩, ?_,
    segment.frame fun address member => ?_, rfl, ?_, ?_, distinct.2, fun address => ?_, ?_, ?_⟩
  · simp [LinkedList.llRemoveFront, readNode, freeNode, begin_eq, held, size_eq]
  · apply Function.update_of_ne
    rintro rfl
    exact distinct.1 member
  · rw [loose.end_eq, last_cons]
    exact last_of_ne_nil (List.cons_ne_nil _ _) _ _
  · show list.size - 1 = _
    rw [size_eq]
    rfl
  · by_cases own : address = node.1
    · rw [own, Function.update_self]
      exact iff_of_false (by simp) distinct.1
    · rw [Function.update_of_ne own, loose.live, List.map_cons, List.mem_cons, or_iff_right own]
  · intro address same
    cases same
    exact Function.update_self ..
  · intro address same
    rw [Function.update_apply]
    split
    · rfl
    · exact loose.back_ends address same

theorem Loose.llRemoveBack {node second : Nat × D} {rest : List (Nat × D)}
    (loose : Loose memory list (rest ++ [second, node]) before after) :
    ∃ reached list', LinkedList.llRemoveBack memory list = some (reached, list', true) ∧
      Loose reached list' (rest ++ [second]) before (some node.1) := by
  have mirrored := loose.mirror
  rw [show (rest ++ [second, node]).reverse = node :: second :: rest.reverse by simp] at mirrored
  obtain ⟨reached, list', removed, kept⟩ := mirrored.llRemoveFront
  refine ⟨LinkedSegment.mirror reached, list'.flip, ?_, ?_⟩
  · rw [llRemoveBack_eq_mirror, removed]
    rfl
  · have back := kept.mirror
    simpa using back

end Rules

end TellyDB.Utils.LinkedList
