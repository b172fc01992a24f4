import TellyDB.Commands.Data.Expiries
import TellyDB.Commands.Data.Writes
import TellyDB.Commands.ListCommands.Integrity
import TellyDB.Lib.Bisimulation
import TellyDB.Utils.LinkedList.Loose

/-!
Owns what the nodes of a list and their links amount to for the commands: a list is its
elements, and whether the links around them lead to nodes that were freed. A memory hands out
an address once, as a pointer to a freed node never becomes valid again.
-/

namespace TellyDB.Commands

open Lib.Bisimulation Lib.LinkedSegment Utils Utils.LinkedList Database.Keyspace
open TellyDB.Database (Scalar)

/-! ## The commands on a list value -/

/-- What lies under the key: nothing while it is absent, else its list. -/
abbrev HeldList : Type := Option ListValue

namespace HeldList

/-- LPUSH and RPUSH. -/
def push (insert : ListValue → Scalar → ListValue) (held : HeldList) (values : List Scalar) :
    HeldList × Nat :=
  match values with
  | [] => (held, 0)
  | _ => (some (values.foldl insert (held.getD .llCreate)), values.length)

/-- LPOP and RPOP. -/
def pop (pointer : ListValue → Option Scalar) (remove : ListValue → Option ListValue)
    (held : HeldList) : Option (HeldList × Option Scalar) :=
  match held with
  | none => some (none, none)
  | some list => do
      let value ← pointer list
      if list.size = 1 then do
        list.llFree
        some (none, some value)
      else do
        let list ← remove list
        some (some list, some value)

/-- LINDEX. -/
def lindex (held : HeldList) (index : IndexLiteral) : Option (Option Scalar) :=
  match held with
  | none => some none
  | some list =>
      if index.negative then list.fromBack ((index.magnitude + uint64Max) % 2 ^ 64)
      else list.fromFront index.magnitude

/-- LRANGE. -/
def lrange (held : HeldList) (startIndex stopIndex : IndexLiteral) : Option (List Scalar) :=
  match held with
  | none => some []
  | some list =>
      if list.size = 0 then some []
      else
        let start := ListKey.normalizeIndex list.size startIndex
        let stop := ListKey.normalizeIndex list.size stopIndex
        if start ≥ list.size ∨ stop ≤ start ∨ stop = list.size then some []
        else Data.collectValues list (stop - start + 1) start stop

/-- What a save reads of the key. -/
def save (held : HeldList) : Option (List Scalar) :=
  match held with
  | none => some []
  | some list => if list.backFreed then none else some list.elements

/-- DEL. -/
def del (held : HeldList) : Option HeldList :=
  match held with
  | none => some none
  | some list => list.llFree.map fun _ => none

end HeldList

/-! ## Both machines -/

namespace ListKey

/-- What a command answers. -/
inductive Answer (D : Type) where
  | count (pushed : Nat)
  | value (found : Option D)
  | values (found : List D)
  | done

/-- One command on the nodes. -/
def perform {D : Type} (key : ListKey D) : Command D → Option (ListKey D × Answer D)
  | .lpush values => (lpush key values).map fun after => (after.1, .count after.2)
  | .rpush values => (rpush key values).map fun after => (after.1, .count after.2)
  | .lpop => (lpop key).map fun after => (after.1, .value after.2)
  | .rpop => (rpop key).map fun after => (after.1, .value after.2)
  | .lindex index => (lindex key index).map fun found => (key, .value found)
  | .lrange start stop => (lrange key start stop).map fun found => (key, .values found)
  | .save => (save key).map fun found => (key, .values found)
  | .del => (deleteData key).map fun after => (after, .done)

/-- The addresses that a command takes. -/
def Command.addresses {D : Type} : Command D → List Nat
  | .lpush values | .rpush values => values.map Prod.fst
  | _ => []

end ListKey

open ListKey

/-- The same command on the elements. -/
def HeldList.perform (held : HeldList) : Command Scalar → Option (HeldList × Answer Scalar)
  | .lpush values =>
      let after := held.push .llInsertFront (values.map Prod.snd)
      some (after.1, .count after.2)
  | .rpush values =>
      let after := held.push .llInsertBack (values.map Prod.snd)
      some (after.1, .count after.2)
  | .lpop => (held.pop (fun list => list.elements.head?) ListValue.llRemoveFront).map
      fun after => (after.1, .value after.2)
  | .rpop => (held.pop (fun list => list.elements.getLast?) ListValue.llRemoveBack).map
      fun after => (after.1, .value after.2)
  | .lindex index => (held.lindex index).map fun found => (held, .value found)
  | .lrange start stop => (held.lrange start stop).map fun found => (held, .values found)
  | .save => held.save.map fun found => (held, .values found)
  | .del => held.del.map fun after => (after, .done)

/-! ## The nodes behind a list value -/

/-- The address is neither live nor one that a link around the nodes leads to. -/
structure Fresh (memory : Memory Scalar) (before after : Option Nat) (address : Nat) : Prop where
  dead : memory address = none
  before_ne : before ≠ some address
  after_ne : after ≠ some address

/-- The list value of nodes and the links around them. -/
def valueOf (nodes : List (Nat × Scalar)) (before after : Option Nat) : ListValue :=
  ⟨nodes.map Prod.snd, before.isSome, after.isSome⟩

/-- A list over nodes, with addresses that are fresh. -/
structure Spans (memory : Memory Scalar) (list : LinkedList) (value : ListValue)
    (nodes : List (Nat × Scalar)) (before after : Option Nat) (addresses : List Nat) : Prop where
  loose : Loose memory list nodes before after
  value_eq : value = valueOf nodes before after
  fresh : ∀ address ∈ addresses, Fresh memory before after address

/-- The key holds the list value, and the addresses are fresh. -/
inductive Holds : ListKey Scalar → HeldList → List Nat → Prop
  | absent (addresses : List Nat) : Holds ⟨fun _ => none, none⟩ none addresses
  | present {memory : Memory Scalar} {list : LinkedList} {value : ListValue}
      {nodes : List (Nat × Scalar)} {before after : Option Nat} {addresses : List Nat}
      (spans : Spans memory list value nodes before after addresses) (nonempty : nodes ≠ []) :
      Holds ⟨memory, some list⟩ (some value) addresses

section Steps

variable {memory : Memory Scalar} {list : LinkedList} {value : ListValue}
  {nodes : List (Nat × Scalar)} {before after : Option Nat} {addresses : List Nat}

theorem Spans.size_eq (spans : Spans memory list value nodes before after addresses) :
    list.size = value.size := by
  rw [spans.loose.size_eq, spans.value_eq, ListValue.size, valueOf, List.length_map]

theorem Spans.weaken (spans : Spans memory list value nodes before after addresses)
    {fewer : List Nat} (within : ∀ address ∈ fewer, address ∈ addresses) :
    Spans memory list value nodes before after fewer :=
  { spans with fresh := fun address member => spans.fresh address (within address member) }

theorem spans_create (addresses : List Nat) :
    Spans (fun _ => none) llCreate .llCreate [] none none addresses where
  loose := linked_create.loose
  value_eq := rfl
  fresh := fun _ _ => ⟨rfl, by simp, by simp⟩

/-! ## Pushes -/

theorem Spans.llInsertFront {address : Nat} {others : List Nat}
    (spans : Spans memory list value nodes before after (address :: others))
    (once : address ∉ others) (element : Scalar) :
    ∃ reached list', LinkedList.llInsertFront memory list address element =
        some (reached, list', some address) ∧
      Spans reached list' (value.llInsertFront element) ((address, element) :: nodes) none
        (if nodes = [] then none else after) others := by
  have fresh := spans.fresh address List.mem_cons_self
  obtain ⟨reached, list', inserted, loose⟩ :=
    spans.loose.llInsertFront fresh.dead fresh.after_ne element
  refine ⟨reached, list', inserted, loose, ?_, fun other member => ?_⟩
  · rw [spans.value_eq, valueOf, valueOf, ListValue.llInsertFront]
    cases nodes with
    | nil => rfl
    | cons node rest => simp
  · have still := spans.fresh other (List.mem_cons_of_mem _ member)
    refine ⟨?_, by simp, ?_⟩
    · rw [loose.dead_iff, List.map_cons, List.mem_cons, not_or]
      refine ⟨?_, (spans.loose.dead_iff other).mp still.dead⟩
      rintro rfl
      exact once member
    · split
      · simp
      · exact still.after_ne

theorem Spans.llInsertBack {address : Nat} {others : List Nat}
    (spans : Spans memory list value nodes before after (address :: others))
    (once : address ∉ others) (element : Scalar) :
    ∃ reached list', LinkedList.llInsertBack memory list address element =
        some (reached, list', some address) ∧
      Spans reached list' (value.llInsertBack element) (nodes ++ [(address, element)])
        (if nodes = [] then none else before) none others := by
  have fresh := spans.fresh address List.mem_cons_self
  obtain ⟨reached, list', inserted, loose⟩ :=
    spans.loose.llInsertBack fresh.dead fresh.before_ne element
  refine ⟨reached, list', inserted, loose, ?_, fun other member => ?_⟩
  · rw [spans.value_eq, valueOf, valueOf, ListValue.llInsertBack]
    cases nodes with
    | nil => rfl
    | cons node rest => simp
  · have still := spans.fresh other (List.mem_cons_of_mem _ member)
    refine ⟨?_, ?_, by simp⟩
    · rw [loose.dead_iff, List.map_append, List.mem_append, not_or]
      refine ⟨(spans.loose.dead_iff other).mp still.dead, ?_⟩
      rw [List.map_singleton, List.mem_singleton]
      rintro rfl
      exact once member
    · split
      · simp
      · exact still.before_ne

/-- An insertion on the nodes does what `place` does on the elements. -/
def Inserts (insert : Memory Scalar → LinkedList → Nat → Scalar →
      Option (Memory Scalar × LinkedList × Option Nat))
    (place : ListValue → Scalar → ListValue) : Prop :=
  ∀ memory list value nodes before after address others,
    Spans memory list value nodes before after (address :: others) → address ∉ others →
      ∀ element, ∃ reached list' nodes' before' after',
        insert memory list address element = some (reached, list', some address) ∧ nodes' ≠ [] ∧
          Spans reached list' (place value element) nodes' before' after' others

theorem inserts_front : Inserts LinkedList.llInsertFront ListValue.llInsertFront := by
  intro memory list value nodes before after address others spans apart element
  obtain ⟨reached, list', inserted, spanned⟩ := spans.llInsertFront apart element
  exact ⟨reached, list', _, _, _, inserted, List.cons_ne_nil _ _, spanned⟩

theorem inserts_back : Inserts LinkedList.llInsertBack ListValue.llInsertBack := by
  intro memory list value nodes before after address others spans apart element
  obtain ⟨reached, list', inserted, spanned⟩ := spans.llInsertBack apart element
  exact ⟨reached, list', _, _, _, inserted, by simp, spanned⟩

/-- The loop of a push, whichever end it inserts at. -/
theorem pushAll_spans
    {insert : Memory Scalar → LinkedList → Nat → Scalar →
      Option (Memory Scalar × LinkedList × Option Nat)}
    {place : ListValue → Scalar → ListValue}
    (inserts : Inserts insert place)
    (values : List (Nat × Scalar)) {others : List Nat}
    (spans : Spans memory list value nodes before after (values.map Prod.fst ++ others))
    (once : (values.map Prod.fst ++ others).Nodup) :
    ∃ reached list' nodes' before' after',
      pushAll insert values memory list = some (reached, list', values.length) ∧
        (values ≠ [] ∨ nodes ≠ [] → nodes' ≠ []) ∧
        Spans reached list' ((values.map Prod.snd).foldl place value) nodes' before' after'
          others := by
  induction values generalizing memory list value nodes before after with
  | nil => exact ⟨memory, list, nodes, before, after, rfl, by simp, spans⟩
  | cons entry rest inductionHypothesis =>
      rw [List.map_cons, List.cons_append, List.nodup_cons] at once
      rw [List.map_cons, List.cons_append] at spans
      obtain ⟨middle, list', nodes', before', after', inserted, filled, kept⟩ :=
        inserts _ _ _ _ _ _ _ _ spans once.1 entry.2
      obtain ⟨reached, final, nodes'', before'', after'', pushed, nonempty, spanned⟩ :=
        inductionHypothesis kept once.2
      refine ⟨reached, final, nodes'', before'', after'', ?_, fun _ => nonempty (.inr filled),
        spanned⟩
      rw [pushAll, inserted]
      simp [pushed]

theorem push_holds
    {insert : Memory Scalar → LinkedList → Nat → Scalar →
      Option (Memory Scalar × LinkedList × Option Nat)}
    {place : ListValue → Scalar → ListValue}
    (inserts : Inserts insert place)
    {key : ListKey Scalar} {held : HeldList} {values : List (Nat × Scalar)} {others : List Nat}
    (holds : Holds key held (values.map Prod.fst ++ others))
    (once : (values.map Prod.fst ++ others).Nodup) :
    ∃ reached, push insert key values =
        some (reached, (held.push place (values.map Prod.snd)).2) ∧
      Holds reached (held.push place (values.map Prod.snd)).1 others := by
  have start : ∃ nodes before after, Spans key.memory (key.list.getD llCreate)
      (held.getD .llCreate) nodes before after (values.map Prod.fst ++ others) := by
    cases holds with
    | absent => exact ⟨[], none, none, spans_create _⟩
    | present spans nonempty => exact ⟨_, _, _, spans⟩
  obtain ⟨nodes, before, after, spans⟩ := start
  cases values with
  | nil =>
      refine ⟨key, rfl, ?_⟩
      cases holds with
      | absent => exact .absent _
      | present spans nonempty => exact .present spans nonempty
  | cons entry rest =>
      obtain ⟨reached, list', nodes', before', after', pushed, filled, spanned⟩ :=
        pushAll_spans inserts (entry :: rest) spans once
      refine ⟨⟨reached, some list'⟩, ?_, .present spanned (filled (.inl (List.cons_ne_nil _ _)))⟩
      rw [push, pushed, HeldList.push]
      · simp
      · exact List.cons_ne_nil _ _
      · simp

/-! ## Removals -/

theorem Spans.llRemoveFront (spans : Spans memory list value nodes before after addresses)
    (several : 2 ≤ nodes.length) :
    ∃ reached list' shorter nodes' before', LinkedList.llRemoveFront memory list =
        some (reached, list', true) ∧ value.llRemoveFront = some shorter ∧ nodes' ≠ [] ∧
      Spans reached list' shorter nodes' before' after addresses := by
  match nodes, several with
  | node :: second :: rest, _ =>
      obtain ⟨reached, list', removed, loose⟩ := spans.loose.llRemoveFront
      refine ⟨reached, list', valueOf (second :: rest) (some node.1) after, second :: rest,
        some node.1, removed, ?_, List.cons_ne_nil _ _, loose, rfl, fun address member => ?_⟩
      · rw [spans.value_eq]
        rfl
      · have fresh := spans.fresh address member
        have apart := (spans.loose.dead_iff address).mp fresh.dead
        rw [List.map_cons, List.mem_cons, not_or] at apart
        exact ⟨(loose.dead_iff address).mpr apart.2,
          fun same => apart.1 (Option.some.inj same).symm, fresh.after_ne⟩

theorem Spans.llRemoveBack (spans : Spans memory list value nodes before after addresses)
    (several : 2 ≤ nodes.length) :
    ∃ reached list' shorter nodes' after', LinkedList.llRemoveBack memory list =
        some (reached, list', true) ∧ value.llRemoveBack = some shorter ∧ nodes' ≠ [] ∧
      Spans reached list' shorter nodes' before after' addresses := by
  obtain ⟨rest, second, node, rfl⟩ : ∃ rest second node, nodes = rest ++ [second, node] := by
    have reversed : 2 ≤ nodes.reverse.length := by rwa [List.length_reverse]
    match back : nodes.reverse, reversed with
    | node :: second :: rest, _ =>
        refine ⟨rest.reverse, second, node, ?_⟩
        rw [← List.reverse_reverse nodes, back]
        simp
  obtain ⟨reached, list', removed, loose⟩ := spans.loose.llRemoveBack
  refine ⟨reached, list', valueOf (rest ++ [second]) before (some node.1), rest ++ [second],
    some node.1, removed, ?_, by simp, loose, rfl, fun address member => ?_⟩
  · rw [spans.value_eq, ListValue.llRemoveBack]
    split
    · next empty => simp [valueOf] at empty
    · simp [valueOf]
  · have fresh := spans.fresh address member
    have apart := (spans.loose.dead_iff address).mp fresh.dead
    simp only [List.map_append, List.map_cons, List.map_nil, List.mem_append, List.mem_cons,
      List.not_mem_nil, or_false, not_or] at apart
    refine ⟨(loose.dead_iff address).mpr (by simp [apart]), fresh.before_ne, ?_⟩
    exact fun same => apart.2.2 (Option.some.inj same).symm

/-- DEL frees the list exactly where the last link is NULL. -/
theorem deleteData_holds (spans : Spans memory list value nodes before after addresses)
    (nonempty : nodes ≠ []) :
    ListKey.deleteData ⟨memory, some list⟩ = value.llFree.map fun _ => ⟨fun _ => none, none⟩ := by
  have cleared := spans.loose.llClear nonempty
  rw [ListKey.deleteData, spans.value_eq, ListValue.llFree, valueOf]
  cases after with
  | none =>
      obtain ⟨freed, ran⟩ := cleared.2 rfl
      simp [ran]
  | some address => simp [cleared.1 rfl]

/-- A removal that leaves a node does on the nodes what `shorten` does on the elements. -/
def Removes (remove : Memory Scalar → LinkedList → Option (Memory Scalar × LinkedList × Bool))
    (shorten : ListValue → Option ListValue) : Prop :=
  ∀ memory list value nodes before after addresses,
    Spans memory list value nodes before after addresses → 2 ≤ nodes.length →
      ∃ reached list' shorter nodes' before' after', remove memory list =
          some (reached, list', true) ∧ shorten value = some shorter ∧ nodes' ≠ [] ∧
        Spans reached list' shorter nodes' before' after' addresses

theorem removes_front : Removes LinkedList.llRemoveFront ListValue.llRemoveFront := by
  intro memory list value nodes before after addresses spans several
  obtain ⟨reached, list', shorter, nodes', before', removed, shortened, filled, spanned⟩ :=
    spans.llRemoveFront several
  exact ⟨reached, list', shorter, nodes', before', after, removed, shortened, filled, spanned⟩

theorem removes_back : Removes LinkedList.llRemoveBack ListValue.llRemoveBack := by
  intro memory list value nodes before after addresses spans several
  obtain ⟨reached, list', shorter, nodes', after', removed, shortened, filled, spanned⟩ :=
    spans.llRemoveBack several
  exact ⟨reached, list', shorter, nodes', before, after', removed, shortened, filled, spanned⟩

/-- A pop at whichever end. -/
theorem pop_holds {pointer : LinkedList → Option Nat} {element : ListValue → Option Scalar}
    {remove : Memory Scalar → LinkedList → Option (Memory Scalar × LinkedList × Bool)}
    {shorten : ListValue → Option ListValue} (removes : Removes remove shorten)
    (reads : ∀ {memory list value nodes before after addresses},
      Spans memory list value nodes before after addresses → nodes ≠ [] →
        (readNode memory (pointer list)).map Cell.data = element value)
    {key : ListKey Scalar} {held : HeldList} (holds : Holds key held addresses) :
    Option.Rel (fun next other => Holds next.1 other.1 addresses ∧ next.2 = other.2)
      (pop pointer remove key) (held.pop element shorten) := by
  cases holds with
  | absent => exact .some ⟨.absent _, rfl⟩
  | @present memory list value nodes before after _ spans nonempty =>
      have first := reads spans nonempty
      rw [pop, HeldList.pop]
      cases node : readNode memory (pointer list) with
      | none =>
          rw [node] at first
          simp only [← first, node, Option.map_none, Option.bind_eq_bind, Option.bind_none]
          exact .none
      | some cell =>
          rw [node] at first
          simp only [← first, node, Option.map_some, Option.bind_eq_bind, Option.bind_some,
            spans.size_eq]
          split
          · rw [deleteData_holds spans nonempty]
            cases value.llFree with
            | none => exact .none
            | some freed => exact .some ⟨.absent _, rfl⟩
          · next several =>
              have two : 2 ≤ nodes.length := by
                have positive := List.length_pos_iff.mpr nonempty
                rw [← spans.size_eq, spans.loose.size_eq] at several
                omega
              obtain ⟨reached, list', shorter, nodes', before', after', removed, shortened,
                filled, spanned⟩ :=
                removes _ _ _ _ _ _ _ spans two
              rw [removed, shortened]
              exact .some ⟨.present spanned filled, rfl⟩

theorem readNode_begin (spans : Spans memory list value nodes before after addresses)
    (nonempty : nodes ≠ []) :
    (readNode memory list.beginNode).map Cell.data = value.elements.head? := by
  rw [spans.loose.begin_eq, spans.value_eq]
  match nodes, nonempty with
  | node :: rest, _ =>
      obtain ⟨held, -⟩ := spans.loose.segment
      simp [readNode, held, valueOf]

theorem readNode_end (spans : Spans memory list value nodes before after addresses)
    (nonempty : nodes ≠ []) :
    (readNode memory list.endNode).map Cell.data = value.elements.getLast? := by
  have mirrored := spans.loose.mirror
  have begin_eq : list.endNode = first nodes.reverse none := mirrored.begin_eq
  have data : (readNode (mirror memory) list.endNode).map Cell.data =
      (readNode memory list.endNode).map Cell.data := by
    rw [readNode_mirror, Option.map_map]
    rfl
  rw [← data, begin_eq, spans.value_eq, valueOf, ← List.head?_reverse, ← List.map_reverse]
  match back : nodes.reverse, mirrored.segment with
  | [], _ => exact absurd (List.reverse_eq_nil_iff.mp back) nonempty
  | node :: rest, segment =>
      obtain ⟨held, -⟩ := segment
      simp [readNode, held]

/-! ## Reads -/

theorem lookup_elements (index : Nat) :
    lookup (nodes.map Prod.snd) after index = (valueOf nodes before after).fromFront index := by
  rw [lookup, ListValue.fromFront]
  cases found : (nodes.map Prod.snd)[index]? with
  | none =>
      simp only [valueOf, found]
      rfl
  | some element => simp only [valueOf, found]

theorem lookup_reversed (index : Nat) :
    lookup (nodes.map Prod.snd).reverse before index =
      (valueOf nodes before after).fromBack index := by
  rw [lookup, ListValue.fromBack]
  cases found : (nodes.map Prod.snd).reverse[index]? with
  | none =>
      simp only [valueOf, found]
      rfl
  | some element => simp only [valueOf, found]

theorem lindex_holds (spans : Spans memory list value nodes before after addresses)
    (nonempty : nodes ≠ []) (index : IndexLiteral) :
    ListKey.lindex ⟨memory, some list⟩ index = HeldList.lindex (some value) index := by
  have front := spans.loose.readAt_front nonempty index.magnitude
  have back := spans.loose.readAt_back nonempty ((index.magnitude + 2 ^ 64 - 1) % 2 ^ 64)
  rw [lookup_elements, ← spans.value_eq] at front
  rw [lookup_reversed, ← spans.value_eq] at back
  have shift : index.magnitude + 2 ^ 64 - 1 = index.magnitude + uint64Max := by
    rw [uint64Max]
    omega
  rw [shift] at back
  rw [HeldList.lindex, ← front, ← back]
  simp only [ListKey.lindex, indexedNode, llGetFromIndex, shift, readAt]
  split <;> rfl

/-- Reading `count` nodes along a segment works exactly when it has that many. -/
theorem collectAlong_loose (segment : Segment memory before nodes after)
    (ends : Ends memory after) (count : Nat) :
    collectAlong memory Cell.next count (first nodes after) =
      if count ≤ nodes.length then some ((nodes.map Prod.snd).take count) else none := by
  induction nodes generalizing before count with
  | nil =>
      cases count with
      | zero => simp [collectAlong]
      | succ count =>
          cases after with
          | none => simp [collectAlong, first, readNode]
          | some address => simp [collectAlong, first, readNode, ends address rfl]
  | cons node rest inductionHypothesis =>
      cases count with
      | zero => simp [collectAlong]
      | succ count =>
          obtain ⟨held, segment⟩ := segment
          have further := inductionHypothesis segment count
          rw [first_cons, collectAlong]
          simp only [readNode, Option.bind_eq_bind, Option.bind_some, held, further,
            List.length_cons, Nat.succ_le_succ_iff]
          split <;> simp

/-- The node at a place inside the list. -/
theorem walk_inside (segment : Segment memory before nodes after) {position : Nat}
    (bound : position < nodes.length) :
    walk memory Cell.next position (first nodes after) = some (some (nodes[position].1)) := by
  induction nodes generalizing before position with
  | nil => exact absurd bound (Nat.not_lt_zero _)
  | cons node rest inductionHypothesis =>
      obtain ⟨held, segment⟩ := segment
      cases position with
      | zero => rfl
      | succ position =>
          rw [first_cons, walk, held]
          exact inductionHypothesis segment (Nat.lt_of_succ_lt_succ bound)

theorem collectValues_holds (spans : Spans memory list value nodes before after addresses)
    {start stop : Nat} (ordered : start < stop) (bound : stop < list.size) :
    ListKey.collectValues memory list (stop - start + 1) start stop =
      Data.collectValues value (stop - start + 1) start stop := by
  have loose := spans.loose
  have size_eq := loose.size_eq
  have nonempty : nodes ≠ [] := by
    rintro rfl
    simp at size_eq
    omega
  have begin_eq : list.beginNode = first nodes after :=
    loose.begin_eq.trans (first_nonempty nonempty none after)
  have elements : value.elements = nodes.map Prod.snd := by rw [spans.value_eq, valueOf]
  rw [Data.collectValues, ← spans.size_eq, elements]
  by_cases forward : start ≤ list.size - stop
  · have direction : determineDir start stop list.size = .front := if_pos forward
    have inside : start < nodes.length := by omega
    rw [ListKey.collectValues, direction, if_pos forward]
    simp only [llGetFromIndex, begin_eq, walk_inside loose.segment inside, Option.bind_eq_bind,
      Option.bind_some]
    have segment := loose.segment
    rw [← List.take_append_drop start nodes, segment_append] at segment
    have here : first (nodes.drop start) after = some nodes[start].1 := by
      rw [List.drop_eq_getElem_cons inside]
      rfl
    rw [← here, collectAlong_loose segment.2 loose.back_ends, List.length_drop,
      if_pos (by omega), List.map_drop]
  · have direction : determineDir start stop list.size = .back := if_neg forward
    have inside : list.size - stop - 1 < nodes.length := by omega
    have position : list.size - stop - 1 + 1 = list.size - stop := by omega
    rw [ListKey.collectValues, direction, if_neg forward]
    simp only [llGetFromIndex, begin_eq, walk_inside loose.segment inside, Option.bind_eq_bind,
      Option.bind_some]
    have segment := loose.segment
    rw [← List.take_append_drop (list.size - stop - 1 + 1) nodes, segment_append] at segment
    have here : first (nodes.take (list.size - stop - 1 + 1)).reverse before =
        some nodes[list.size - stop - 1].1 := by
      rw [List.take_succ_eq_append_getElem inside, List.reverse_append]
      rfl
    rw [← here, ← collectAlong_mirror,
      collectAlong_loose segment.1.mirror loose.front_ends.mirror, List.length_reverse,
      List.length_take, Nat.min_eq_left inside, Nat.succ_eq_add_one, position, List.map_reverse,
      List.map_take]
    by_cases enough : stop - start + 1 ≤ list.size - stop
    · have short : list.size - stop ≤ (nodes.map Prod.snd).length := by
        rw [List.length_map]
        omega
      rw [if_pos enough, if_pos enough, Option.bind_some, List.take_reverse, List.reverse_reverse,
        List.length_take, Nat.min_eq_left short, List.drop_take, Nat.sub_sub_self enough]
    · rw [if_neg enough, if_neg enough, Option.bind_none]

theorem normalizeIndex_le (size : Nat) (index : IndexLiteral) :
    ListKey.normalizeIndex size index ≤ size := by
  rw [ListKey.normalizeIndex]
  split_ifs <;> omega

theorem lrange_holds (spans : Spans memory list value nodes before after addresses)
    (startIndex stopIndex : IndexLiteral) :
    ListKey.lrange ⟨memory, some list⟩ startIndex stopIndex =
      HeldList.lrange (some value) startIndex stopIndex := by
  have within := normalizeIndex_le value.size stopIndex
  simp only [ListKey.lrange, HeldList.lrange, spans.size_eq]
  split
  · rfl
  · split
    · rfl
    · next walks => exact collectValues_holds spans (by omega) (by rw [spans.size_eq]; omega)

theorem save_holds (spans : Spans memory list value nodes before after addresses)
    (nonempty : nodes ≠ []) :
    ListKey.save ⟨memory, some list⟩ = HeldList.save (some value) := by
  have collected := spans.loose.collectList nonempty
  simp only [ListKey.save, HeldList.save, collected, spans.value_eq, valueOf]

end Steps

/-! ## Every command -/

theorem Holds.weaken {key : ListKey Scalar} {held : HeldList} {addresses fewer : List Nat}
    (holds : Holds key held addresses) (within : ∀ address ∈ fewer, address ∈ addresses) :
    Holds key held fewer := by
  cases holds with
  | absent => exact .absent _
  | present spans nonempty => exact .present (spans.weaken within) nonempty

/-- A command does on the nodes what it does on the elements, and touches a freed node exactly
where the elements say so. -/
theorem perform_holds {key : ListKey Scalar} {held : HeldList} (command : Command Scalar)
    {others : List Nat} (holds : Holds key held (command.addresses ++ others))
    (once : (command.addresses ++ others).Nodup) :
    Option.Rel (fun next other => Holds next.1 other.1 others ∧ next.2 = other.2)
      (key.perform command) (held.perform command) := by
  have kept : Holds key held others :=
    holds.weaken fun address member => List.mem_append_right _ member
  cases command with
  | lpush values =>
      obtain ⟨reached, pushed, after⟩ := push_holds inserts_front holds once
      rw [ListKey.perform, HeldList.perform, lpush, pushed]
      exact .some ⟨after, rfl⟩
  | rpush values =>
      obtain ⟨reached, pushed, after⟩ := push_holds inserts_back holds once
      rw [ListKey.perform, HeldList.perform, rpush, pushed]
      exact .some ⟨after, rfl⟩
  | lpop =>
      exact rel_map (pop_holds removes_front readNode_begin kept)
        fun next other alike => ⟨alike.1, by rw [alike.2]⟩
  | rpop =>
      exact rel_map (pop_holds removes_back readNode_end kept)
        fun next other alike => ⟨alike.1, by rw [alike.2]⟩
  | lindex index =>
      cases holds with
      | absent => exact .some ⟨.absent _, rfl⟩
      | present spans nonempty =>
          rw [ListKey.perform, HeldList.perform, lindex_holds spans nonempty]
          exact rel_map (rel_eq _) fun found _ same => ⟨kept, by rw [same]⟩
  | lrange start stop =>
      cases holds with
      | absent => exact .some ⟨.absent _, rfl⟩
      | present spans nonempty =>
          rw [ListKey.perform, HeldList.perform, lrange_holds spans]
          exact rel_map (rel_eq _) fun found _ same => ⟨kept, by rw [same]⟩
  | save =>
      cases holds with
      | absent => exact .some ⟨.absent _, rfl⟩
      | present spans nonempty =>
          rw [ListKey.perform, HeldList.perform, save_holds spans nonempty]
          exact rel_map (rel_eq _) fun found _ same => ⟨kept, by rw [same]⟩
  | del =>
      cases holds with
      | absent => exact .some ⟨.absent _, rfl⟩
      | present spans nonempty =>
          rw [ListKey.perform, HeldList.perform, deleteData_holds spans nonempty, HeldList.del,
            Option.map_map, Option.map_map]
          exact rel_map (rel_eq _) fun _ _ _ => ⟨.absent _, rfl⟩

/-- The nodes that any sequence of commands leaves stand for the elements and the freed links
that the commands leave on the elements: both answer alike, and the first command that follows a
freed link is the same for both. -/
theorem nodes_refine_elements (commands : List (Command Scalar))
    (once : (commands.flatMap Command.addresses).Nodup) :
    Agree ListKey.perform HeldList.perform (fun _ => Eq) (fun key held => Holds key held [])
      ⟨fun _ => none, none⟩ none commands := by
  apply @agree_of_remaining _ _ _ _ _ ListKey.perform HeldList.perform (fun _ => Eq) _
    (fun key held rest => Holds key held (rest.flatMap Command.addresses) ∧
      (rest.flatMap Command.addresses).Nodup)
  · rintro key held command rest ⟨holds, once⟩
    rw [List.flatMap_cons] at holds once
    exact rel_imp (perform_holds command holds once) fun next other alike =>
      ⟨⟨alike.1, once.of_append_right⟩, alike.2⟩
  · exact fun key held holds => holds.1
  · exact ⟨.absent _, once⟩

/-- RPUSH of three elements and RPOP; the last LINDEX follows the link to the freed node. -/
theorem nodes_refine_elements_popped :
    Agree ListKey.perform HeldList.perform (fun _ => Eq) (fun key held => Holds key held [])
      ⟨fun _ => none, none⟩ none
      [.rpush [(1, .int 5), (2, .int 6), (3, .int 7)], .rpop, .lindex ⟨true, 1⟩, .lpush [(4, .null)],
        .lindex ⟨false, 3⟩] :=
  nodes_refine_elements _ (by decide)

/-! ## The handlers -/

section Handlers

variable {mpf : Mpf} {entry : Data.Entry} {data : Database.Keyspace.Data} {held : HeldList}
  {key : Argument}

/-- What lies under the key of a database. -/
def Under (data : Database.Keyspace.Data) (key : Resp.Bytes) : HeldList → Prop
  | none => data.get key = none
  | some list => ∃ expiry, data.get key = some ⟨.list list, expiry⟩

/-- The reply to a pop. -/
def Shown (found : Option Scalar) (reply : Data.Reply) : Prop :=
  match found with
  | none => reply = .null
  | some value => ∃ element, Data.writeScalar value = some element ∧ reply = .element element

theorem under_after {after : Database.Keyspace.Data} {list : ListValue} {expiry : Option Nat}
    (reads : ∀ name, after.get name =
      if key.bytes = name then some ⟨.list list, expiry⟩ else data.get name) :
    Under after key.bytes (some list) :=
  ⟨expiry, by rw [reads, if_pos rfl]⟩

/-- LPUSH and RPUSH push what their arguments stand for onto what lies under the key. -/
theorem runPush_under {name : String} {insert : ListValue → Scalar → ListValue}
    {inputs : List Argument} (args : entry.args = key :: inputs) (filled : inputs ≠ [])
    (under : Under data key.bytes held) :
    ∃ after, Data.runPush mpf name insert entry data = some (after, entry.answer (.integer
        (held.push insert (inputs.map (pushedValue mpf))).2)) ∧
      Under after key.bytes (held.push insert (inputs.map (pushedValue mpf))).1 := by
  obtain ⟨input, rest, rfl⟩ := List.exists_cons_of_ne_nil filled
  have pushed : ∀ list : ListValue,
      (input :: rest).foldl (fun list input => insert list (pushedValue mpf input)) list =
        ((input :: rest).map (pushedValue mpf)).foldl insert list :=
    fun list => (List.foldl_map).symm
  cases held with
  | none =>
      have absent : data.get key.bytes = none := under
      refine ⟨_, ?_, under_after (Data.get_insert_absent absent ⟨.list _, none⟩)⟩
      simp only [Data.runPush, args, getData, absent, setData, pushed, HeldList.push]
      simp
  | some list =>
      obtain ⟨expiry, present⟩ := under
      refine ⟨_, ?_, under_after (Data.get_changeValue present _)⟩
      simp only [Data.runPush, args, getData, present, pushed, HeldList.push]
      simp

/-- DEL of one key frees what lies under it. -/
theorem deleteData_under (under : Under data key.bytes held) :
    Option.Rel (fun next other => Under next.1 key.bytes other) (Database.Keyspace.deleteData data key.bytes)
      held.del := by
  rw [Data.deleteData_eq]
  cases held with
  | none =>
      rw [show data.get key.bytes = none from under]
      exact .some under
  | some list =>
      obtain ⟨expiry, present⟩ := under
      rw [present]
      apply rel_map (rel_eq _)
      rintro freed _ -
      show (data.delete key.bytes).1.get key.bytes = none
      rw [Database.Table.get_delete, if_pos rfl]

/-- LPOP and RPOP for a client that is connected. -/
theorem runPop_under {name : String} {pointer : ListValue → Option Scalar}
    {remove : ListValue → Option ListValue} {protover : Server.ProtocolVersion}
    (connected : entry.client = some protover) (args : entry.args = [key])
    (known : ∀ list, held = some list → ∀ value, pointer list = some value → value ≠ .unknown)
    (under : Under data key.bytes held) :
    Option.Rel (fun next other => Under next.1 key.bytes other.1 ∧ Shown other.2 next.2)
      (Data.runPop name pointer remove entry data) (held.pop pointer remove) := by
  cases held with
  | none =>
      have absent : data.get key.bytes = none := under
      simp only [Data.runPop, args, getData, absent, HeldList.pop]
      exact .some ⟨absent, by rw [Data.Entry.answer, connected]; rfl⟩
  | some list =>
      have freed := deleteData_under under
      obtain ⟨expiry, present⟩ := under
      simp only [Data.runPop, args, getData, present, HeldList.pop, Data.popReply, connected]
      cases first : pointer list with
      | none => exact .none
      | some value =>
          obtain ⟨element, written⟩ : ∃ element, Data.writeScalar value = some element := by
            cases value with
            | unknown => exact absurd rfl (known list rfl _ first)
            | _ => exact ⟨_, rfl⟩
          simp only [written, Option.bind_eq_bind, Option.bind_some]
          split
          · rw [HeldList.del] at freed
            cases freeing : list.llFree with
            | none =>
                rw [freeing] at freed
                generalize Database.Keyspace.deleteData data key.bytes = deleted at freed
                cases freed
                exact .none
            | some freedAll =>
                rw [freeing] at freed
                generalize Database.Keyspace.deleteData data key.bytes = deleted at freed
                cases freed with
                | some gone => exact .some ⟨gone, element, written, rfl⟩
          · apply rel_bind (rel_eq _)
            rintro shorter _ rfl
            exact .some ⟨under_after (Data.get_changeValue present _), element, written, rfl⟩

/-- An index as LINDEX and LRANGE read it. -/
def literal (index : Argument) : IndexLiteral :=
  let negative := index.bytes.head? = some 0x2d
  ⟨negative, (atoullS (if negative then 0x2b :: index.bytes.tail else index.bytes)).1⟩

/-- LINDEX and LTYPE of a list, for an index of 64 bits. -/
theorem runIndexed_under {name : String} {write : Scalar → Option Data.Element} {list : ListValue}
    {index : Argument} {protover : Server.ProtocolVersion}
    (connected : entry.client = some protover) (args : entry.args = [key, index])
    (integer : tryParseInteger index = true)
    (within : (atoullS (if index.bytes.head? = some 0x2d then 0x2b :: index.bytes.tail
      else index.bytes)).2 ≠ .erange)
    (under : Under data key.bytes (some list)) :
    Data.runIndexed name write entry data = (HeldList.lindex (some list) (literal index)).bind fun found =>
      (match found with
        | none => some Data.Reply.null
        | some value => (write value).map Data.Reply.element).map fun reply => (data, reply) := by
  obtain ⟨expiry, present⟩ := under
  simp only [Data.runIndexed, Data.reading, connected, args, getData, present, Option.map_some,
    integer, Bool.not_true, Bool.false_eq_true, if_false, within, HeldList.lindex, literal,
    decide_eq_true_eq]
  split
  · cases list.fromBack _ with
    | none => rfl
    | some found => rfl
  · cases list.fromFront _ with
    | none => rfl
    | some found => rfl

theorem normalizeIndex_literal (size : Nat) (index : Argument) :
    Data.normalizeIndex size index.bytes = ListKey.normalizeIndex size (literal index) := by
  rw [Data.normalizeIndex, ListKey.normalizeIndex, literal]
  by_cases negative : index.bytes.head? = some 0x2d <;> simp [negative]

/-- LRANGE. -/
theorem runLrange_under {start stop : Argument} {protover : Server.ProtocolVersion}
    (connected : entry.client = some protover) (args : entry.args = [key, start, stop])
    (integers : tryParseInteger start = true ∧ tryParseInteger stop = true)
    (under : Under data key.bytes held) :
    Data.runLrange entry data = (held.lrange (literal start) (literal stop)).bind fun found =>
      (found.mapM Data.elementInPlace).map fun elements =>
        (data, .array found.length elements) := by
  cases held with
  | none =>
      have absent : data.get key.bytes = none := under
      simp [Data.runLrange, Data.reading, connected, args, getData, absent, integers,
        HeldList.lrange]
  | some list =>
      obtain ⟨expiry, present⟩ := under
      simp only [Data.runLrange, Data.reading, connected, args, getData, present, integers,
        Bool.not_true, Bool.false_eq_true, if_false, HeldList.lrange, normalizeIndex_literal]
      by_cases empty : list.size = 0
      · simp [empty]
      · by_cases refused : ListKey.normalizeIndex list.size (literal start) ≥ list.size ∨
            ListKey.normalizeIndex list.size (literal stop) ≤
              ListKey.normalizeIndex list.size (literal start) ∨
            ListKey.normalizeIndex list.size (literal stop) = list.size
        · simp [empty, refused]
        · have bound := normalizeIndex_le list.size (literal stop)
          have counted : ∀ values, Data.collectValues list
              (ListKey.normalizeIndex list.size (literal stop) -
                ListKey.normalizeIndex list.size (literal start) + 1)
              (ListKey.normalizeIndex list.size (literal start))
              (ListKey.normalizeIndex list.size (literal stop)) = some values →
              ListKey.normalizeIndex list.size (literal stop) -
                ListKey.normalizeIndex list.size (literal start) + 1 = values.length := by
            intro values collected
            rw [ListValue.size] at *
            rw [Data.collectValues] at collected
            split_ifs at collected
            · cases collected
              rw [List.length_take, List.length_drop]
              omega
            · cases collected
              rw [List.length_take, List.length_drop, ListValue.size]
              omega
          simp only [empty, refused, or_false, if_false]
          cases collected : Data.collectValues list _ _ _ with
          | none => rfl
          | some values =>
              simp only [Option.bind_eq_bind, Option.bind_some, counted values collected]
              cases values.mapM Data.elementInPlace <;> rfl

end Handlers

end TellyDB.Commands
