import TellyDB.Commands.ListCommands
import TellyDB.Utils.LinkedList.Deque

/-!
Owns the integrity of the list under one key over any mix of list commands:
every command touches live nodes only and the links stay intact, exactly as
long as no pop leaves nodes behind and no LRANGE walks off the front.
-/

namespace TellyDB.Commands.ListKey

open Lib Lib.LinkedSegment Lib.Transition Utils Utils.LinkedList

variable {D : Type}

/-- A command on the key. Values to push come with the addresses the allocator
would hand out. -/
inductive Command (D : Type) where
  | lpush (values : List (Nat × D))
  | rpush (values : List (Nat × D))
  | lpop
  | rpop
  | lindex (index : IndexLiteral)
  | lrange (start stop : IndexLiteral)
  | save
  | del

/-- The key with the abstract sequence under it. -/
structure State (D : Type) where
  key : ListKey D
  contents : List D

/-- The key is absent. -/
def State.absent : State D := ⟨⟨fun _ => none, none⟩, []⟩

/-- One command; of the pushed values those the reply counts enter the sequence. -/
def step (state : State D) : Command D → Option (State D)
  | .lpush values => do
      let (key, count) ← lpush state.key values
      some ⟨key, ((values.take count).map Prod.snd).reverse ++ state.contents⟩
  | .rpush values => do
      let (key, count) ← rpush state.key values
      some ⟨key, state.contents ++ (values.take count).map Prod.snd⟩
  | .lpop => do
      let (key, _) ← lpop state.key
      some ⟨key, state.contents.tail⟩
  | .rpop => do
      let (key, _) ← rpop state.key
      some ⟨key, state.contents.dropLast⟩
  | .lindex index => do
      let _ ← lindex state.key index
      some state
  | .lrange start stop => do
      let _ ← lrange state.key start stop
      some state
  | .save => do
      let _ ← save state.key
      some state
  | .del => do
      let key ← deleteData state.key
      some ⟨key, []⟩

/-- LRANGE replies without a walk, walks forward, or finds enough nodes in
front of the one it starts from. -/
def WalksInside (size : Nat) (startIndex stopIndex : IndexLiteral) : Prop :=
  let start := normalizeIndex size startIndex
  let stop := normalizeIndex size stopIndex
  (size = 0 ∨ start ≥ size ∨ stop ≤ start ∨ stop = size) ∨ start ≤ size - stop ∨
    stop - start ≤ size - stop - 1

/-- A pop takes the last node there is, and LRANGE walks inside. -/
def Contained (state : State D) : Command D → Prop
  | .lpop | .rpop => ∀ list, state.key.list = some list → list.size = 1
  | .lrange start stop => ∀ list, state.key.list = some list → WalksInside list.size start stop
  | .lpush _ | .rpush _ | .lindex _ | .save | .del => True

instance (size : Nat) (start stop : IndexLiteral) : Decidable (WalksInside size start stop) :=
  inferInstanceAs (Decidable ((_ ∨ _ ∨ _ ∨ _) ∨ _ ∨ _))

/-- A condition on the list under a key that may be absent. -/
def decidableOnList (key : ListKey D) (condition : LinkedList → Prop)
    [DecidablePred condition] : Decidable (∀ list, key.list = some list → condition list) :=
  match present : key.list with
  | none => isTrue fun _ other => by simp at other
  | some list => decidable_of_iff (condition list) (by simp)

instance (state : State D) (command : Command D) : Decidable (Contained state command) :=
  match command with
  | .lpop | .rpop => decidableOnList state.key fun list => list.size = 1
  | .lrange start stop => decidableOnList state.key fun list => WalksInside list.size start stop
  | .lpush _ | .rpush _ | .lindex _ | .save | .del => isTrue trivial

/-- An absent key holds no node, a present one an intact list with the sequence. -/
def State.Intact (state : State D) : Prop :=
  match state.key.list with
  | none => state.key.memory = (fun _ => none) ∧ state.contents = []
  | some list => LinkedList.Intact state.key.memory list state.contents

/-- The invariant behind it. -/
def State.Linked (state : State D) : Prop :=
  match state.key.list with
  | none => state.key.memory = (fun _ => none) ∧ state.contents = []
  | some list => ∃ nodes, nodes.map Prod.snd = state.contents ∧
      LinkedList.Linked state.key.memory list nodes

theorem State.Linked.intact {state : State D} (linked : state.Linked) : state.Intact := by
  rw [State.Linked] at linked
  rw [State.Intact]
  cases present : state.key.list with
  | none =>
      rw [present] at linked
      exact linked
  | some list =>
      rw [present] at linked
      rcases linked with ⟨nodes, contents_eq, linked⟩
      exact ⟨nodes, contents_eq, linked.intact⟩

/-- A present key, or the list a push creates, is linked. -/
theorem State.Linked.list_linked {state : State D} (linked : state.Linked) :
    ∃ nodes, nodes.map Prod.snd = state.contents ∧
      LinkedList.Linked state.key.memory (state.key.list.getD llCreate) nodes := by
  rw [State.Linked] at linked
  cases present : state.key.list with
  | none =>
      rw [present] at linked
      rcases linked with ⟨memory_eq, contents_eq⟩
      refine ⟨[], contents_eq.symm, ?_⟩
      rw [memory_eq]
      exact linked_create
  | some list =>
      rw [present] at linked
      exact linked

/-! ## Pushes -/

theorem pushAll_front {memory : Memory D} {list : LinkedList} {nodes : List (Nat × D)}
    (linked : LinkedList.Linked memory list nodes) (values : List (Nat × D)) :
    ∃ after list' count, pushAll llInsertFront values memory list = some (after, list', count) ∧
      LinkedList.Linked after list' ((values.take count).reverse ++ nodes) := by
  induction values generalizing memory list nodes with
  | nil => exact ⟨memory, list, 0, rfl, linked⟩
  | cons value rest inductionHypothesis =>
      cases held : memory value.1 with
      | some node =>
          refine ⟨memory, list, 0, ?_, linked⟩
          simp [pushAll, llInsertFront_live held]
      | none =>
          rcases linked.llInsertFront held value.2 with ⟨middle, list', inserted, kept⟩
          rcases inductionHypothesis kept with ⟨after, final, count, pushed, linkedAfter⟩
          refine ⟨after, final, count + 1, ?_, ?_⟩
          · simp [pushAll, inserted, pushed]
          · rw [List.take_succ_cons, List.reverse_cons, List.append_assoc]
            exact linkedAfter

theorem pushAll_back {memory : Memory D} {list : LinkedList} {nodes : List (Nat × D)}
    (linked : LinkedList.Linked memory list nodes) (values : List (Nat × D)) :
    ∃ after list' count, pushAll llInsertBack values memory list = some (after, list', count) ∧
      LinkedList.Linked after list' (nodes ++ values.take count) := by
  induction values generalizing memory list nodes with
  | nil => exact ⟨memory, list, 0, rfl, by simpa using linked⟩
  | cons value rest inductionHypothesis =>
      cases held : memory value.1 with
      | some node =>
          refine ⟨memory, list, 0, ?_, by simpa using linked⟩
          simp [pushAll, llInsertBack_live held]
      | none =>
          rcases linked.llInsertBack held value.2 with ⟨middle, list', inserted, kept⟩
          rcases inductionHypothesis kept with ⟨after, final, count, pushed, linkedAfter⟩
          refine ⟨after, final, count + 1, ?_, ?_⟩
          · simp [pushAll, inserted, pushed]
          · rw [List.take_succ_cons]
            rwa [List.append_assoc] at linkedAfter

/-! ## Walks of LRANGE -/

/-- Reading `count` nodes along a segment yields their data, and works exactly when it has
that many. -/
theorem collectAlong_segment {memory : Memory D} {nodes : List (Nat × D)} {before : Option Nat}
    (segment : Segment memory before nodes none) (count : Nat) :
    collectAlong memory Cell.next count (first nodes none) =
      if count ≤ nodes.length then some ((nodes.map Prod.snd).take count) else none := by
  induction nodes generalizing before count with
  | nil =>
      cases count with
      | zero => simp [collectAlong]
      | succ count => simp [collectAlong, first, readNode]
  | cons node rest inductionHypothesis =>
      cases count with
      | zero => simp [collectAlong]
      | succ count =>
          rcases segment with ⟨held, segment⟩
          simp only [collectAlong, first_cons, readNode, Option.bind_eq_bind, Option.bind_some,
            held, inductionHypothesis segment count, List.length_cons, Nat.succ_le_succ_iff]
          by_cases enough : count ≤ rest.length
          · simp [enough]
          · simp [enough]

theorem readNode_mirror (memory : Memory D) (pointer : Option Nat) :
    readNode (mirror memory) pointer = (readNode memory pointer).map Cell.mirror := by
  cases pointer with
  | none => rfl
  | some address => rfl

theorem collectAlong_mirror (memory : Memory D) (count : Nat) (pointer : Option Nat) :
    collectAlong (mirror memory) Cell.next count pointer =
      collectAlong memory Cell.prev count pointer := by
  induction count generalizing pointer with
  | zero => rfl
  | succ count inductionHypothesis =>
      rw [collectAlong, collectAlong, readNode_mirror]
      cases readNode memory pointer with
      | none => rfl
      | some node =>
          simp only [Option.map_some, Option.bind_eq_bind, Option.bind_some]
          rw [show node.mirror.next = node.prev from rfl, inductionHypothesis]
          rfl

/-- From the node at `position`, reading backwards works exactly for the nodes up to it. -/
theorem collectAlong_prev {memory : Memory D} {nodes : List (Nat × D)}
    (segment : Segment memory none nodes none) {position : Nat} (bound : position < nodes.length)
    (count : Nat) :
    collectAlong memory Cell.prev count ((nodes[position]?).map Prod.fst) =
      if count ≤ position + 1 then
        some (((nodes.map Prod.snd).take (position + 1)).reverse.take count) else none := by
  rw [← List.take_append_drop (position + 1) nodes, segment_append] at segment
  have start : (nodes[position]?).map Prod.fst =
      first (nodes.take (position + 1)).reverse none := by
    rw [List.take_succ_eq_append_getElem bound, List.reverse_append, List.getElem?_eq_getElem bound]
    rfl
  rw [← collectAlong_mirror, start, collectAlong_segment segment.1.mirror count,
    List.length_reverse, List.length_take, Nat.min_eq_left bound, List.map_reverse, List.map_take]

/-- From the node at `position`, reading forwards works exactly for the nodes from it on. -/
theorem collectAlong_next {memory : Memory D} {nodes : List (Nat × D)}
    (segment : Segment memory none nodes none) (position count : Nat) :
    collectAlong memory Cell.next count ((nodes[position]?).map Prod.fst) =
      if count ≤ nodes.length - position then
        some (((nodes.map Prod.snd).drop position).take count) else none := by
  rw [← List.take_append_drop position nodes, segment_append] at segment
  rw [← first_drop, collectAlong_segment segment.2 count, List.length_drop, List.map_drop]

/-- The data that `collect_values` finds. Towards the back it starts as many nodes from the front
as `stop` lies from the end. -/
theorem collectValues_linked {memory : Memory D} {list : LinkedList} {nodes : List (Nat × D)}
    (linked : LinkedList.Linked memory list nodes) {count start stop : Nat}
    (bound : stop < list.size) (within : start + count ≤ list.size) :
    collectValues memory list count start stop =
      if start ≤ list.size - stop then some (((nodes.map Prod.snd).drop start).take count)
      else if count ≤ list.size - stop then
        some (((nodes.map Prod.snd).drop (list.size - stop - count)).take count)
      else none := by
  have size_eq := linked.size_eq
  by_cases forward : start ≤ list.size - stop
  · have direction : determineDir start stop list.size = .front := if_pos forward
    rw [collectValues, direction, if_pos forward]
    simp only [linked.intact.forward, Option.bind_eq_bind, Option.bind_some]
    rw [collectAlong_next linked.segment start count, if_pos (by omega)]
  · have direction : determineDir start stop list.size = .back := if_neg forward
    have position : list.size - stop - 1 + 1 = list.size - stop := by omega
    rw [collectValues, direction, if_neg forward]
    simp only [linked.intact.forward, Option.bind_eq_bind, Option.bind_some]
    rw [collectAlong_prev linked.segment (by omega) count, position]
    by_cases enough : count ≤ list.size - stop
    · have short : list.size - stop ≤ (nodes.map Prod.snd).length := by
        rw [List.length_map]
        omega
      rw [if_pos enough, if_pos enough, Option.bind_some, List.take_reverse, List.reverse_reverse,
        List.length_take, Nat.min_eq_left short, List.drop_take, Nat.sub_sub_self enough]
    · rw [if_neg enough, if_neg enough, Option.bind_none]

theorem collectValues_isSome {memory : Memory D} {list : LinkedList} {nodes : List (Nat × D)}
    (linked : LinkedList.Linked memory list nodes) {start stop : Nat} (ordered : start < stop)
    (bound : stop < list.size) :
    (collectValues memory list (stop - start + 1) start stop).isSome ↔
      start ≤ list.size - stop ∨ stop - start ≤ list.size - stop - 1 := by
  rw [collectValues_linked linked bound (by omega)]
  split_ifs with forward enough
  · simp [forward]
  · refine iff_of_true rfl (.inr ?_)
    omega
  · refine iff_of_false (by simp) ?_
    omega

/-- LRANGE on a linked list succeeds exactly when it walks inside. -/
theorem lrange_isSome {memory : Memory D} {list : LinkedList} {nodes : List (Nat × D)}
    (linked : LinkedList.Linked memory list nodes) (startIndex stopIndex : IndexLiteral) :
    (lrange ⟨memory, some list⟩ startIndex stopIndex).isSome ↔
      WalksInside list.size startIndex stopIndex := by
  rw [lrange, WalksInside]
  by_cases empty : list.size = 0
  · simp [empty]
  · simp only [empty, ↓reduceIte, false_or]
    by_cases refused : normalizeIndex list.size startIndex ≥ list.size ∨
        normalizeIndex list.size stopIndex ≤ normalizeIndex list.size startIndex ∨
        normalizeIndex list.size stopIndex = list.size
    · simp [refused]
    · have within : normalizeIndex list.size stopIndex ≤ list.size := by
        rw [normalizeIndex]
        split_ifs <;> omega
      rw [if_neg refused, collectValues_isSome linked (by omega) (by omega), or_iff_right refused]

/-! ## Every command -/

theorem linked_absent : (State.absent : State D).Linked := ⟨rfl, rfl⟩

theorem deleteData_linked {key : ListKey D} {list : LinkedList} {nodes : List (Nat × D)}
    (present : key.list = some list) (linked : LinkedList.Linked key.memory list nodes) :
    deleteData key = some ⟨fun _ => none, none⟩ := by
  simp [deleteData, present, linked.intact.cleared]

/-- Popping the last node deletes the key. -/
theorem pop_single {key : ListKey D} {list : LinkedList} {node : Nat × D}
    (present : key.list = some list) (linked : LinkedList.Linked key.memory list [node])
    {pointer : LinkedList → Option Nat} (points : pointer list = some node.1)
    (remove : Memory D → LinkedList → Option (Memory D × LinkedList × Bool)) :
    pop pointer remove key = some (⟨fun _ => none, none⟩, some node.2) := by
  have single : list.size = 1 := linked.size_eq
  rcases linked.segment with ⟨held, -⟩
  simp [pop, present, points, readNode, held, single, deleteData_linked present linked]

/-- Popping from an empty list dereferences NULL. -/
theorem pop_empty {key : ListKey D} {list : LinkedList} (present : key.list = some list)
    {pointer : LinkedList → Option Nat} (points : pointer list = none)
    (remove : Memory D → LinkedList → Option (Memory D × LinkedList × Bool)) :
    pop pointer remove key = none := by
  simp [pop, present, points, readNode]

/-- Popping from a list of several nodes removes one of them. -/
theorem pop_several {key next : ListKey D} {reply : Option D} {list : LinkedList}
    (present : key.list = some list) (several : list.size ≠ 1)
    {pointer : LinkedList → Option Nat}
    {remove : Memory D → LinkedList → Option (Memory D × LinkedList × Bool)}
    {after : Memory D} {list' : LinkedList} (removed : remove key.memory list = some (after, list', true))
    (popped : pop pointer remove key = some (next, reply)) : next = ⟨after, some list'⟩ := by
  simp only [pop, present, several, removed, ↓reduceIte, Option.bind_eq_bind, Option.bind_some,
    Option.bind_eq_some_iff, Option.some.injEq, Prod.mk.injEq] at popped
  rcases popped with ⟨node, -, next_eq, -⟩
  exact next_eq.symm

/-- LINDEX finds a node of the list, or none. -/
theorem indexedNode_linked {memory : Memory D} {list : LinkedList} {nodes : List (Nat × D)}
    (linked : LinkedList.Linked memory list nodes) (index : IndexLiteral) :
    ∃ found, indexedNode memory list index = some found ∧
      ∀ address, found = some address → address ∈ nodes.map Prod.fst := by
  rw [indexedNode]
  split
  · refine ⟨_, linked.intact.backward _, fun address hit => ?_⟩
    obtain ⟨node, at_index, address_eq⟩ := Option.map_eq_some_iff.mp hit
    rw [← address_eq]
    exact List.mem_map_of_mem (List.mem_reverse.mp (List.mem_of_getElem? at_index))
  · refine ⟨_, linked.intact.forward _, fun address hit => ?_⟩
    obtain ⟨node, at_index, address_eq⟩ := Option.map_eq_some_iff.mp hit
    rw [← address_eq]
    exact List.mem_map_of_mem (List.mem_of_getElem? at_index)

theorem lindex_linked {state : State D} (linked : state.Linked) (index : IndexLiteral) :
    ∃ reply, lindex state.key index = some reply := by
  rw [State.Linked] at linked
  cases present : state.key.list with
  | none => exact ⟨none, by simp [lindex, present]⟩
  | some list =>
      rw [present] at linked
      rcases linked with ⟨nodes, -, linked⟩
      rcases indexedNode_linked linked index with ⟨found, looked, inside⟩
      cases found with
      | none => exact ⟨none, by simp [lindex, present, looked]⟩
      | some address =>
          have live := (linked.live address).mpr (inside address rfl)
          obtain ⟨node, held⟩ := Option.isSome_iff_exists.mp live
          exact ⟨some node.data, by simp [lindex, present, looked, held]⟩

theorem lrange_linked {state : State D} (linked : state.Linked) {start stop : IndexLiteral} :
    (lrange state.key start stop).isSome ↔
      ∀ list, state.key.list = some list → WalksInside list.size start stop := by
  rw [State.Linked] at linked
  cases present : state.key.list with
  | none => simp [lrange, present]
  | some list =>
      rw [present] at linked
      rcases linked with ⟨nodes, -, linked⟩
      have key_eq : state.key = ⟨state.key.memory, some list⟩ := by rw [← present]
      rw [key_eq, lrange_isSome linked]
      constructor
      · rintro inside _ ⟨⟩
        exact inside
      · intro inside
        exact inside list rfl

theorem pop_linked {state : State D} (linked : state.Linked)
    (last : ∀ list, state.key.list = some list → list.size = 1)
    {pointer : LinkedList → Option Nat}
    (points : ∀ list node, LinkedList.Linked state.key.memory list [node] →
      pointer list = some node.1)
    (remove : Memory D → LinkedList → Option (Memory D × LinkedList × Bool)) :
    ∃ reply, pop pointer remove state.key = some (⟨fun _ => none, none⟩, reply) ∧
      state.contents.tail = [] ∧ state.contents.dropLast = [] := by
  rw [State.Linked] at linked
  cases present : state.key.list with
  | none =>
      rw [present] at linked
      rcases linked with ⟨memory_eq, contents_eq⟩
      refine ⟨none, ?_, by rw [contents_eq]; rfl, by rw [contents_eq]; rfl⟩
      have key_eq : state.key = ⟨fun _ => none, none⟩ := by rw [← memory_eq, ← present]
      simp [pop, key_eq]
  | some list =>
      rw [present] at linked
      rcases linked with ⟨nodes, contents_eq, linked⟩
      have single : nodes.length = 1 := by rw [← linked.size_eq, last list present]
      obtain ⟨node, rfl⟩ := List.length_eq_one_iff.mp single
      exact ⟨some node.2, pop_single present linked (points list node linked) remove,
        by rw [← contents_eq]; rfl, by rw [← contents_eq]; rfl⟩

/-- A contained command touches live nodes only and keeps the key linked. -/
theorem step_linked (state : State D) (command : Command D) (linked : state.Linked)
    (contained : Contained state command) :
    ∃ next, step state command = some next ∧ next.Linked := by
  have listLinked := linked.list_linked
  rcases listLinked with ⟨nodes, contents_eq, listLinked⟩
  cases command with
  | lpush values =>
      cases values with
      | nil => exact ⟨state, by simp [step, lpush, push], linked⟩
      | cons value rest =>
          rcases pushAll_front listLinked (value :: rest) with ⟨after, list, count, pushed, kept⟩
          refine ⟨⟨⟨after, some list⟩,
            (((value :: rest).take count).map Prod.snd).reverse ++ state.contents⟩, ?_, _, ?_, kept⟩
          · simp [step, lpush, push, pushed]
          · rw [List.map_append, List.map_reverse, contents_eq]
  | rpush values =>
      cases values with
      | nil => exact ⟨state, by simp [step, rpush, push], linked⟩
      | cons value rest =>
          rcases pushAll_back listLinked (value :: rest) with ⟨after, list, count, pushed, kept⟩
          refine ⟨⟨⟨after, some list⟩,
            state.contents ++ ((value :: rest).take count).map Prod.snd⟩, ?_, _, ?_, kept⟩
          · simp [step, rpush, push, pushed]
          · rw [List.map_append, contents_eq]
  | lpop =>
      rcases pop_linked linked contained (fun _ _ linked => linked.begin_eq) llRemoveFront with
        ⟨reply, popped, tail_eq, -⟩
      refine ⟨State.absent, ?_, linked_absent⟩
      simp [step, lpop, popped, tail_eq, State.absent]
  | rpop =>
      rcases pop_linked linked contained (fun _ _ linked => linked.end_eq) llRemoveBack with
        ⟨reply, popped, -, dropLast_eq⟩
      refine ⟨State.absent, ?_, linked_absent⟩
      simp [step, rpop, popped, dropLast_eq, State.absent]
  | lindex index =>
      rcases lindex_linked linked index with ⟨reply, looked⟩
      exact ⟨state, by simp [step, looked], linked⟩
  | lrange start stop =>
      obtain ⟨reply, ranged⟩ := Option.isSome_iff_exists.mp ((lrange_linked linked).mpr contained)
      exact ⟨state, by simp [step, ranged], linked⟩
  | save =>
      refine ⟨state, ?_, linked⟩
      cases present : state.key.list with
      | none => simp [step, save, present]
      | some list =>
          rw [present] at listLinked
          have collected := listLinked.intact.collected
          rw [Option.getD_some] at collected
          simp [step, save, present, collected]
  | del =>
      refine ⟨State.absent, ?_, linked_absent⟩
      cases present : state.key.list with
      | none =>
          rw [State.Linked, present] at linked
          have key_eq : state.key = ⟨fun _ => none, none⟩ := by rw [← linked.1, ← present]
          simp [step, deleteData, State.absent, key_eq]
      | some list =>
          rw [present] at listLinked
          simp [step, deleteData_linked present listLinked, State.absent]

/-- A pop that leaves nodes behind leaves a link to the removed one, and a pop
from an empty list gets stuck. -/
theorem pop_broken {state : State D} (linked : state.Linked)
    (several : ¬∀ list, state.key.list = some list → list.size = 1)
    {pointer : LinkedList → Option Nat}
    (points : ∀ list, LinkedList.Linked state.key.memory list [] → pointer list = none)
    {remove : Memory D → LinkedList → Option (Memory D × LinkedList × Bool)}
    (removes : ∀ list nodes, LinkedList.Linked state.key.memory list nodes → 2 ≤ nodes.length →
      ∃ after list', remove state.key.memory list = some (after, list', true) ∧ Dangling after)
    {next : ListKey D} {reply : Option D} (popped : pop pointer remove state.key = some (next, reply))
    (contents : List D) : ¬State.Intact ⟨next, contents⟩ := by
  push Not at several
  rcases several with ⟨list, present, notOne⟩
  rw [State.Linked, present] at linked
  rcases linked with ⟨nodes, -, linked⟩
  cases nodes with
  | nil =>
      rw [pop_empty present (points list linked) remove] at popped
      cases popped
  | cons node rest =>
      have many : 2 ≤ (node :: rest).length := by
        have size_eq := linked.size_eq
        rw [List.length_cons] at size_eq ⊢
        omega
      rcases removes list _ linked many with ⟨after, list', removed, dangling⟩
      rw [pop_several present notOne removed popped]
      exact dangling.not_intact list' contents

theorem step_broken (state : State D) (command : Command D) (next : State D)
    (linked : state.Linked) (uncontained : ¬Contained state command)
    (stepped : step state command = some next) : ¬next.Intact := by
  cases command with
  | lpush | rpush | lindex | save | del => exact absurd trivial uncontained
  | lpop =>
      simp only [step, Option.bind_eq_bind, Option.bind_eq_some_iff] at stepped
      rcases stepped with ⟨⟨key, reply⟩, popped, next_eq⟩
      cases next_eq
      exact pop_broken linked uncontained (fun _ linked => linked.begin_eq)
        (fun _ _ linked many => (linked.remove_dangling many).1) popped _
  | rpop =>
      simp only [step, Option.bind_eq_bind, Option.bind_eq_some_iff] at stepped
      rcases stepped with ⟨⟨key, reply⟩, popped, next_eq⟩
      cases next_eq
      exact pop_broken linked uncontained (fun _ linked => linked.end_eq)
        (fun _ _ linked many => (linked.remove_dangling many).2) popped _
  | lrange start stop =>
      simp only [step, Option.bind_eq_bind, Option.bind_eq_some_iff] at stepped
      rcases stepped with ⟨reply, ranged, -⟩
      refine absurd ((lrange_linked linked).mp ?_) uncontained
      rw [ranged]
      rfl

/-! ## The list under its calls and under the commands -/

/-- The key is intact after every part of a mix of commands exactly when every
command is contained. -/
theorem always_intact_iff (commands : List (Command D)) :
    (∀ first, first <+: commands →
      ∃ final, run step State.absent first = some final ∧ final.Intact) ↔
      Guarded step Contained State.absent commands :=
  always_iff_guarded step_linked (fun _ => State.Linked.intact) step_broken linked_absent

/-- The list is intact after every part of a sequence of calls, and the key
after every part of a mix of commands, exactly when no removal leaves a node
behind and no LRANGE walks off the front. -/
theorem list_intact_iff :
    (∀ operations : List (LinkedList.Operation D),
      (∀ first, first <+: operations → ∃ final,
        run LinkedList.step LinkedList.State.create first = some final ∧ final.Intact) ↔
        Guarded LinkedList.step LinkedList.LeavesNoNode LinkedList.State.create operations) ∧
    ∀ commands : List (Command D),
      (∀ first, first <+: commands → ∃ final,
        run step State.absent first = some final ∧ final.Intact) ↔
        Guarded step Contained State.absent commands :=
  ⟨LinkedList.always_intact_iff, always_intact_iff⟩

/-- `RPUSH key a b; RPOP key` leaves the first node linked to the freed second one. -/
theorem list_intact_fails_after_rpop :
    (¬∀ first, first <+: [.insertBack 0 0, .insertBack 1 1, .removeBack] → ∃ final,
        run LinkedList.step (LinkedList.State.create : LinkedList.State Nat) first = some final ∧
          final.Intact) ∧
      ¬∀ first, first <+: [.rpush [(0, 0), (1, 1)], .rpop] → ∃ final,
        run step (State.absent : State Nat) first = some final ∧ final.Intact := by
  constructor
  · rw [LinkedList.always_intact_iff]
    decide
  · rw [always_intact_iff]
    decide

end TellyDB.Commands.ListKey
