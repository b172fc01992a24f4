import TellyDB.Commands.Data.Ranges
import TellyDB.Commands.Data.Writes

/-!
Owns what `LLEN`, `LINDEX` and `LTYPE` read of a key after any sequence of `LPUSH` and `RPUSH`.
-/

namespace TellyDB.Commands.Data

open Resp Server Database.Keyspace
open TellyDB.Database (Scalar Table)
open Lib.LinkedSegment (Memory)

/-! ## Elements -/

section Elements

variable {α : Type}

/-- The element at an index, where `-1` is the last one. -/
def elementAt (elements : List α) (index : Int) : Option α :=
  if position elements.length index < 0 then none
  else elements[(position elements.length index).toNat]?

theorem elementAt_front (elements : List α) (index : Nat) :
    elementAt elements index = elements[index]? := by
  have here : position elements.length index = index := if_neg (by omega)
  rw [elementAt, here, if_neg (by omega), Int.toNat_natCast]

theorem elementAt_back (elements : List α) (index : Nat) :
    elementAt elements (-(index + 1 : Nat)) = elements.reverse[index]? := by
  have here : position elements.length (-(index + 1 : Nat)) =
      elements.length + -(index + 1 : Nat) := if_pos (by omega)
  rw [elementAt, here]
  by_cases inside : index < elements.length
  · rw [if_neg (by omega), List.getElem?_reverse inside]
    congr 1
    omega
  · rw [if_pos (by omega), List.getElem?_eq_none]
    rw [List.length_reverse]
    omega

theorem mem_of_elementAt {elements : List α} {index : Int} {element : α}
    (found : elementAt elements index = some element) : element ∈ elements := by
  rw [elementAt] at found
  split at found
  · cases found
  · exact List.mem_of_getElem? found

end Elements

/-- What is written of the element at an index. An index of more than 64 bits is refused. -/
def indexReply (write : Scalar → Option Element) (elements : List Scalar) (index : Int) :
    Option Reply :=
  if uint64Max < index.natAbs then some (.error "Index exceeded integer bounds")
  else match elementAt elements index with
    | none => some .null
    | some value => (write value).map .element

theorem fromFront_linked (elements : List Scalar) (index : Nat) :
    ListValue.fromFront ⟨elements, false, false⟩ index = some elements[index]? := by
  rw [ListValue.fromFront]
  cases elements[index]? <;> rfl

theorem fromBack_linked (elements : List Scalar) (index : Nat) :
    ListValue.fromBack ⟨elements, false, false⟩ index = some elements.reverse[index]? := by
  rw [ListValue.fromBack]
  cases elements.reverse[index]? <;> rfl

/-- The index of a node from the back is one less than the magnitude of the index. -/
theorem previous_mod {value : Nat} (positive : 1 ≤ value) (fits : value ≤ uint64Max) :
    (value + uint64Max) % 2 ^ 64 = value - 1 := by
  rw [uint64Max] at fits ⊢
  omega

/-- The reply to an index of a list whose links end in NULL. -/
theorem runIndexed_list {name : String} {write : Scalar → Option Element}
    {elements : List Scalar} {data : Data} {key : Bytes} {index : Argument}
    (held : (getData data key).map KeyValue.value = some (.list ⟨elements, false, false⟩))
    (integer : tryParseInteger index = true) (protocol : ProtocolVersion)
    (permissions : Permissions) (following : Bytes) :
    runIndexed name write ⟨some protocol, [⟨key, following⟩, index], permissions⟩ data =
      (indexReply write elements (integerValue index.bytes)).map fun reply => (data, reply) := by
  obtain ⟨bytes, following⟩ := index
  have numeral := ((tryParseInteger_iff _).mp integer).1
  simp only [runIndexed, reading, held, integer, Bool.not_true, Bool.false_eq_true, ↓reduceIte]
  congr 1
  cases numeral with
  | digits nonempty all =>
      have positive := all.head_ne_minus
      rw [if_neg positive, if_neg positive, atoullS_digits nonempty all, integerValue_digits all,
        indexReply, Int.natAbs_natCast, elementAt_front]
      by_cases fits : decimalValue bytes ≤ uint64Max
      · rw [if_pos fits, if_neg (by simp), if_neg (Nat.not_lt.mpr fits), fromFront_linked]
        rfl
      · rw [if_neg fits, if_pos rfl, if_pos (Nat.not_le.mp fits)]
  | @minus digits nonempty all leading =>
      have positive := decimalValue_pos nonempty all leading
      have value : integerValue (0x2d :: digits) = -decimalValue digits := rfl
      rw [List.head?_cons, if_pos rfl, if_pos rfl, List.tail_cons, atoullS_plus nonempty all,
        value, indexReply, Int.natAbs_neg, Int.natAbs_natCast]
      by_cases fits : decimalValue digits ≤ uint64Max
      · rw [if_pos fits, if_neg (by simp), if_neg (Nat.not_lt.mpr fits),
          previous_mod positive fits, fromBack_linked]
        obtain ⟨back, same⟩ := Nat.exists_eq_add_of_le' positive
        rw [same, elementAt_back, Nat.add_sub_cancel]
        rfl
      · rw [if_neg fits, if_pos rfl, if_pos (Nat.not_le.mp fits)]

/-- `LINDEX` reads the data of a node that its walk found. -/
theorem lindex_found {memory : Memory Scalar} {linked : Utils.LinkedList}
    {nodes : List (Nat × Scalar)} (links : linked.Linked memory nodes) {index : IndexLiteral}
    {found : Option (Nat × Scalar)} (inside : ∀ node, found = some node → node ∈ nodes)
    (walked : ListKey.indexedNode memory linked index = some (found.map Prod.fst)) :
    ListKey.lindex ⟨memory, some linked⟩ index = some (found.map Prod.snd) := by
  simp only [ListKey.lindex, walked, Option.bind_eq_bind, Option.bind_some]
  cases found with
  | none => rfl
  | some node =>
      obtain ⟨cell, live, stored⟩ := links.intact.stored node (inside node rfl)
      simp [live, stored]

/-- `LINDEX` reads the element at the index, over the nodes of the list. -/
theorem lindex_nodes {memory : Memory Scalar} {linked : Utils.LinkedList}
    {nodes : List (Nat × Scalar)} (links : linked.Linked memory nodes) {bytes : Bytes}
    (integer : IsInteger bytes) (fits : (integerValue bytes).natAbs ≤ uint64Max) :
    ListKey.lindex ⟨memory, some linked⟩ (indexLiteral bytes) =
      some (elementAt (nodes.map Prod.snd) (integerValue bytes)) := by
  cases integer with
  | digits nonempty all =>
      rw [integerValue_digits all, Int.natAbs_natCast] at fits
      rw [indexLiteral, if_neg all.head_ne_minus, atoullS_digits nonempty all, if_pos fits,
        integerValue_digits all, elementAt_front, List.getElem?_map]
      apply lindex_found links
      · exact fun node found => List.mem_of_getElem? found
      · exact links.intact.forward _
  | @minus digits nonempty all leading =>
      have positive := decimalValue_pos nonempty all leading
      have value : integerValue (0x2d :: digits) = -decimalValue digits := rfl
      rw [value, Int.natAbs_neg, Int.natAbs_natCast] at fits
      obtain ⟨back, same⟩ := Nat.exists_eq_add_of_le' positive
      have previous : (decimalValue digits + 2 ^ 64 - 1) % 2 ^ 64 = back := by
        have shifted := previous_mod positive fits
        rw [uint64Max, ← Nat.add_sub_assoc (by decide)] at shifted
        omega
      rw [indexLiteral, List.head?_cons, if_pos rfl, List.tail_cons, atoullS_plus nonempty all,
        if_pos fits, value, same, elementAt_back, ← List.map_reverse, List.getElem?_map, ← same]
      apply lindex_found links
      · exact fun node found => List.mem_reverse.mp (List.mem_of_getElem? found)
      · rw [ListKey.indexedNode, if_pos rfl, previous]
        exact links.intact.backward _

/-! ## Pushes -/

/-- An `LPUSH` or an `RPUSH` on one key, from any client. -/
structure Push where
  atFront : Bool
  client : Option ProtocolVersion
  permissions : Permissions
  /-- What lies behind the key in the read buffer. -/
  following : Bytes
  inputs : List Argument

variable (mpf : Mpf)

namespace Push

def entry (push : Push) (key : Bytes) : Entry :=
  ⟨push.client, ⟨key, push.following⟩ :: push.inputs, push.permissions⟩

def run (push : Push) (key : Bytes) (data : Data) : Option Data :=
  ((if push.atFront then runLpush mpf else runRpush mpf) (push.entry key) data).map Prod.fst

/-- One value, before the others or behind them. -/
def extend (push : Push) (elements : List Scalar) (value : Scalar) : List Scalar :=
  if push.atFront then value :: elements else elements ++ [value]

/-- The arguments one by one. -/
def onto (push : Push) (elements : List Scalar) : List Scalar :=
  push.inputs.foldl (fun elements input => push.extend elements (pushedValue mpf input)) elements

end Push

/-- The pushes, one after the other. -/
def runPushes (key : Bytes) (pushes : List Push) (data : Data) : Option Data :=
  pushes.foldlM (fun data push => push.run mpf key data) data

/-- What they make of the empty sequence. -/
def pushedSequence (pushes : List Push) : List Scalar :=
  pushes.foldl (fun elements push => push.onto mpf elements) []

/-- The key is absent for the empty sequence, and otherwise holds a list of the elements. -/
def HoldsSequence (data : Data) (key : Bytes) (elements : List Scalar) : Prop :=
  (getData data key).map KeyValue.value =
    if elements = [] then none else some (.list ⟨elements, false, false⟩)

variable {mpf} {data : Data} {key : Bytes} {elements : List Scalar}

theorem foldl_insert {insert : ListValue → Scalar → ListValue}
    {extend : List Scalar → Scalar → List Scalar}
    (inserts : ∀ elements value,
      insert ⟨elements, false, false⟩ value = ⟨extend elements value, false, false⟩)
    (inputs : List Argument) (elements : List Scalar) :
    inputs.foldl (fun list input => insert list (pushedValue mpf input)) ⟨elements, false, false⟩ =
      ⟨inputs.foldl (fun elements input => extend elements (pushedValue mpf input)) elements,
        false, false⟩ := by
  induction inputs generalizing elements with
  | nil => rfl
  | cons input rest inductionHypothesis =>
      rw [List.foldl_cons, List.foldl_cons, inserts, inductionHypothesis]

theorem foldl_extend_ne_nil {extend : List Scalar → Scalar → List Scalar}
    (grows : ∀ elements value, extend elements value ≠ []) (inputs : List Argument)
    {elements : List Scalar} (some_ : elements ≠ []) :
    inputs.foldl (fun elements input => extend elements (pushedValue mpf input)) elements ≠ [] := by
  induction inputs generalizing elements with
  | nil => exact some_
  | cons input rest inductionHypothesis => exact inductionHypothesis (grows _ _)

variable (mpf) in
/-- A push puts its arguments into the sequence. -/
theorem holds_runPush (name : String) {insert : ListValue → Scalar → ListValue}
    {extend : List Scalar → Scalar → List Scalar}
    (inserts : ∀ elements value,
      insert ⟨elements, false, false⟩ value = ⟨extend elements value, false, false⟩)
    (grows : ∀ elements value, extend elements value ≠ [])
    (held : HoldsSequence data key elements) (client : Option ProtocolVersion)
    (permissions : Permissions) (following : Bytes) (inputs : List Argument) :
    ∃ after reply, runPush mpf name insert ⟨client, ⟨key, following⟩ :: inputs, permissions⟩ data =
        some (after, reply) ∧
      HoldsSequence after key
        (inputs.foldl (fun elements input => extend elements (pushedValue mpf input)) elements) := by
  cases inputs with
  | nil => exact ⟨data, _, rfl, held⟩
  | cons first rest =>
      have some_ : (first :: rest).foldl
          (fun elements input => extend elements (pushedValue mpf input)) elements ≠ [] :=
        foldl_extend_ne_nil grows rest (grows _ _)
      rw [HoldsSequence] at held
      cases found : getData data key with
      | none =>
          have empty : elements = [] := by
            by_contra other
            rw [found, if_neg other] at held
            cases held
          subst empty
          simp only [runPush, found, setData, Option.bind_eq_bind, Option.bind_some]
          refine ⟨_, _, rfl, ?_⟩
          rw [HoldsSequence, getData, get_insert_absent found, if_pos rfl, if_neg some_,
            Option.map_some, ListValue.llCreate, foldl_insert inserts]
      | some kv =>
          have holds : kv.value = .list ⟨elements, false, false⟩ := by
            by_cases empty : elements = []
            · rw [found, if_pos empty] at held
              cases held
            · rw [found, if_neg empty, Option.map_some, Option.some_inj] at held
              exact held
          simp only [runPush, found, holds]
          refine ⟨_, _, rfl, ?_⟩
          rw [HoldsSequence, getData, get_changeValue found, if_pos rfl, if_neg some_,
            Option.map_some, foldl_insert inserts]

theorem llInsertFront_linked (elements : List Scalar) (value : Scalar) :
    ListValue.llInsertFront ⟨elements, false, false⟩ value = ⟨value :: elements, false, false⟩ := by
  simp [ListValue.llInsertFront]

theorem llInsertBack_linked (elements : List Scalar) (value : Scalar) :
    ListValue.llInsertBack ⟨elements, false, false⟩ value = ⟨elements ++ [value], false, false⟩ := by
  simp [ListValue.llInsertBack]

/-- One push keeps the key holding its sequence. -/
theorem Push.holds (push : Push) (held : HoldsSequence data key elements) :
    ∃ after, push.run mpf key data = some after ∧ HoldsSequence after key (push.onto mpf elements) := by
  rcases push with ⟨_ | _, client, permissions, following, inputs⟩
  · obtain ⟨after, reply, ran, holds⟩ := holds_runPush mpf "RPUSH" llInsertBack_linked
      (by simp) held client permissions following inputs
    exact ⟨after, congrArg (Option.map Prod.fst) ran, holds⟩
  · obtain ⟨after, reply, ran, holds⟩ := holds_runPush mpf "LPUSH" llInsertFront_linked
      (by simp) held client permissions following inputs
    exact ⟨after, congrArg (Option.map Prod.fst) ran, holds⟩

/-- Pushes from an absent key make it hold the sequence. -/
theorem runPushes_holds (absent : getData data key = none) (pushes : List Push) :
    ∃ after, runPushes mpf key pushes data = some after ∧
      HoldsSequence after key (pushedSequence mpf pushes) := by
  suffices run : ∀ (elements : List Scalar) (data : Data), HoldsSequence data key elements →
      ∃ after, runPushes mpf key pushes data = some after ∧
        HoldsSequence after key
          (pushes.foldl (fun elements push => push.onto mpf elements) elements) by
    apply run
    rw [HoldsSequence, absent, if_pos rfl]
    rfl
  induction pushes with
  | nil => exact fun elements data held => ⟨data, rfl, held⟩
  | cons push rest inductionHypothesis =>
      intro elements data held
      obtain ⟨middle, ran, holds⟩ := push.holds held
      obtain ⟨after, ranRest, holdsRest⟩ := inductionHypothesis _ middle holds
      refine ⟨after, ?_, holdsRest⟩
      rw [runPushes, List.foldlM_cons, ran]
      exact ranRest

theorem pushedValue_known (input : Argument) : pushedValue mpf input ≠ .unknown := by
  rw [pushedValue]
  split_ifs <;> exact Scalar.noConfusion

theorem Push.onto_known (push : Push) (known : ∀ value ∈ elements, value ≠ .unknown) :
    ∀ value ∈ push.onto mpf elements, value ≠ .unknown := by
  rw [Push.onto]
  generalize push.inputs = inputs
  induction inputs generalizing elements with
  | nil => exact known
  | cons input rest inductionHypothesis =>
      apply inductionHypothesis
      intro value (member : value ∈ push.extend elements (pushedValue mpf input))
      have here : value = pushedValue mpf input ∨ value ∈ elements := by
        rw [Push.extend] at member
        split at member
        · simpa using member
        · simpa [or_comm] using member
      rcases here with rfl | earlier
      · exact pushedValue_known input
      · exact known value earlier

/-- Every value of the sequence has a type. -/
theorem pushedSequence_known (pushes : List Push) :
    ∀ value ∈ pushedSequence mpf pushes, value ≠ .unknown := by
  suffices run : ∀ elements : List Scalar, (∀ value ∈ elements, value ≠ .unknown) →
      ∀ value ∈ pushes.foldl (fun elements push => push.onto mpf elements) elements,
        value ≠ .unknown from run [] (by simp)
  induction pushes with
  | nil => exact fun elements known => known
  | cons push rest inductionHypothesis =>
      exact fun elements known => inductionHypothesis _ (push.onto_known known)

/-! ## Reads -/

/-- `LLEN`, `LINDEX` and `LTYPE` of the key answer with the length of the sequence, the element at
the index and its type, and over any nodes that hold the sequence `LINDEX` finds that element. -/
structure ReadsSequence (data : Data) (key : Bytes) (elements : List Scalar) : Prop where
  length : ∀ protocol permissions following,
    runLlen ⟨some protocol, [⟨key, following⟩], permissions⟩ data =
      some (data, .integer elements.length)
  element : ∀ protocol permissions following index, tryParseInteger index = true →
    ∃ reply, indexReply writeScalar elements (integerValue index.bytes) = some reply ∧
      runLindex ⟨some protocol, [⟨key, following⟩, index], permissions⟩ data = some (data, reply)
  type : ∀ protocol permissions following index, tryParseInteger index = true →
    ∃ reply, indexReply (fun value => getRespTypeName value.type) elements
        (integerValue index.bytes) = some reply ∧
      runLtype ⟨some protocol, [⟨key, following⟩, index], permissions⟩ data = some (data, reply)
  node : ∀ (memory : Memory Scalar) (linked : Utils.LinkedList) (nodes : List (Nat × Scalar))
    (index : Argument), linked.Linked memory nodes → nodes.map Prod.snd = elements →
    tryParseInteger index = true → (integerValue index.bytes).natAbs ≤ uint64Max →
      ListKey.lindex ⟨memory, some linked⟩ (indexLiteral index.bytes) =
        some (elementAt elements (integerValue index.bytes))

/-- The answers where no value was pushed. -/
structure ReadsAbsent (data : Data) (key : Bytes) : Prop where
  length : ∀ protocol permissions following,
    runLlen ⟨some protocol, [⟨key, following⟩], permissions⟩ data = some (data, .integer 0)
  element : ∀ protocol permissions following index,
    runLindex ⟨some protocol, [⟨key, following⟩, index], permissions⟩ data =
      some (data, .invalidTypeError "LINDEX")
  type : ∀ protocol permissions following index,
    runLtype ⟨some protocol, [⟨key, following⟩, index], permissions⟩ data =
      some (data, .invalidTypeError "LTYPE")

theorem indexReply_isSome {write : Scalar → Option Element}
    (writes : ∀ value ∈ elements, ∃ element, write value = some element) (index : Int) :
    ∃ reply, indexReply write elements index = some reply := by
  rw [indexReply]
  split
  · exact ⟨_, rfl⟩
  · cases found : elementAt elements index with
    | none => exact ⟨_, rfl⟩
    | some value =>
        obtain ⟨element, written⟩ := writes value (mem_of_elementAt found)
        exact ⟨.element element, by simp [written]⟩

theorem typeName_written {value : Scalar} (known : value ≠ .unknown) :
    ∃ element, getRespTypeName value.type = some element := by
  cases value with
  | unknown => exact absurd rfl known
  | null | int | double | str | bool => exact ⟨_, rfl⟩

theorem reads_list (some_ : elements ≠ []) (known : ∀ value ∈ elements, value ≠ .unknown)
    (held : HoldsSequence data key elements) : ReadsSequence data key elements := by
  rw [HoldsSequence, if_neg some_] at held
  constructor
  · intro protocol permissions following
    obtain ⟨kv, found, holds⟩ := Option.map_eq_some_iff.mp held
    simp only [runLlen, reading, found, holds]
    rfl
  · intro protocol permissions following index integer
    obtain ⟨reply, replied⟩ := indexReply_isSome
      (fun value member => writeScalar_isSome (known value member)) (integerValue index.bytes)
    refine ⟨reply, replied, ?_⟩
    rw [runLindex, runIndexed_list held integer, replied, Option.map_some]
  · intro protocol permissions following index integer
    obtain ⟨reply, replied⟩ := indexReply_isSome
      (fun value member => typeName_written (known value member)) (integerValue index.bytes)
    refine ⟨reply, replied, ?_⟩
    rw [runLtype, runIndexed_list held integer, replied, Option.map_some]
  · intro memory linked nodes index links stored integer fits
    rw [lindex_nodes links ((tryParseInteger_iff index).mp integer).1 fits, stored]

theorem reads_absent (held : HoldsSequence data key []) : ReadsAbsent data key := by
  rw [HoldsSequence, if_pos rfl] at held
  have absent : getData data key = none := Option.map_eq_none_iff.mp held
  constructor
  · intro protocol permissions following
    simp [runLlen, reading, absent]
  · intro protocol permissions following index
    simp [runLindex, runIndexed, reading, absent]
  · intro protocol permissions following index
    simp [runLtype, runIndexed, reading, absent]

/-- After any pushes from an absent key the reads answer with the sequence, and as for an absent
key where it is empty. -/
theorem pushes_read (mpf : Mpf) {data : Data} {key : Bytes} (absent : getData data key = none)
    (pushes : List Push) :
    ∃ after, runPushes mpf key pushes data = some after ∧
      (pushedSequence mpf pushes ≠ [] → ReadsSequence after key (pushedSequence mpf pushes)) ∧
      (pushedSequence mpf pushes = [] → ReadsAbsent after key) := by
  obtain ⟨after, ran, held⟩ := runPushes_holds absent pushes
  refine ⟨after, ran, fun some_ => ?_, fun empty => ?_⟩
  · exact reads_list some_ (pushedSequence_known pushes) held
  · rw [empty] at held
    exact reads_absent held

theorem pushes_read_both :
    getData (Table.create 16 capacity_positive) (text "l") = none ∧
      ∃ after, runPushes Mpf.unused (text "l")
          [⟨false, none, 0, [], [⟨text "1", []⟩, ⟨text "a", []⟩]⟩, ⟨true, none, 0, [], [⟨text "null", []⟩]⟩]
          (Table.create 16 capacity_positive) = some after ∧
        ReadsSequence after (text "l") [.null, .int 1, .str (text "a")] := by
  have absent : getData (Table.create 16 capacity_positive) (text "l") = none :=
    Table.get_create ..
  obtain ⟨after, ran, reads, -⟩ := pushes_read Mpf.unused absent
    [⟨false, none, 0, [], [⟨text "1", []⟩, ⟨text "a", []⟩]⟩, ⟨true, none, 0, [], [⟨text "null", []⟩]⟩]
  exact ⟨absent, after, ran, reads (by decide)⟩

/-- Without a push `LINDEX l 0` replies with an error, not with null. -/
theorem pushes_read_fails_when_absent :
    runPushes Mpf.unused (text "l") [] (Table.create 16 capacity_positive) =
        some (Table.create 16 capacity_positive) ∧
      ¬ReadsSequence (Table.create 16 capacity_positive) (text "l")
        (pushedSequence Mpf.unused []) := by
  refine ⟨rfl, fun reads => ?_⟩
  obtain ⟨reply, replied, ran⟩ := reads.element .resp3 0 [] ⟨text "0", []⟩ (by decide)
  have missing : indexReply writeScalar (pushedSequence Mpf.unused [])
      (integerValue (text "0")) = some .null := by decide
  have held : HoldsSequence (Table.create 16 capacity_positive) (text "l") [] := by
    rw [HoldsSequence, getData, Table.get_create]
    rfl
  have absent := (reads_absent held).element .resp3 0 [] ⟨text "0", []⟩
  rw [absent] at ran
  cases replied.symm.trans missing
  cases ran

end TellyDB.Commands.Data
