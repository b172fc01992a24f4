import TellyDB.Commands.Data.Deletions

/-!
Owns databases that differ only in what their values hold: the same keys with the same
types and expiries, hash tables with the same fields of the same types, lists of the same
types in the same order. What a command does to two such databases without looking into a
value leaves two such databases.
-/

namespace TellyDB.Commands.Data

open Resp Server Database.Keyspace
open TellyDB.Database (Scalar Table)

/-! ## Shapes -/

/-- Values of one type. Hash tables have the same fields of the same types, and lists the
same types in the same order. -/
inductive SameShape : Value → Value → Prop
  | scalar {left right : Scalar} (types : left.type = right.type) :
      SameShape (.scalar left) (.scalar right)
  | hashtable {left right : Table Scalar}
      (types : ∀ name, (left.get name).map Scalar.type = (right.get name).map Scalar.type) :
      SameShape (.hashtable left) (.hashtable right)
  | list {left right : ListValue}
      (types : left.elements.map Scalar.type = right.elements.map Scalar.type) :
      SameShape (.list left) (.list right)

structure SameKey (left right : KeyValue) : Prop where
  value : SameShape left.value right.value
  expiry : left.expiry = right.expiry

/-- The same keys, with values of the same shape. -/
def SameKeys (left right : Data) : Prop :=
  ∀ key, Option.Rel SameKey (left.get key) (right.get key)

section Rules

variable {left right : Data} {former latter : KeyValue} {value other : Value}

theorem SameShape.refl (value : Value) : SameShape value value := by
  cases value with
  | scalar value => exact .scalar rfl
  | hashtable table => exact .hashtable fun _ => rfl
  | list list => exact .list rfl

theorem SameShape.type (same : SameShape value other) : value.type = other.type := by
  cases same with
  | scalar types => exact types
  | hashtable types => rfl
  | list types => rfl

theorem SameKeys.refl (data : Data) : SameKeys data data := by
  intro key
  cases data.get key with
  | none => exact .none
  | some kv => exact .some ⟨.refl _, rfl⟩

theorem SameKeys.found (same : SameKeys left right) (key : Bytes) :
    (left.get key = none ∧ right.get key = none) ∨
      ∃ former latter, left.get key = some former ∧ right.get key = some latter ∧
        SameKey former latter := by
  have here := same key
  cases first : left.get key with
  | none =>
      cases second : right.get key with
      | none => exact .inl ⟨rfl, rfl⟩
      | some latter =>
          rw [first, second] at here
          cases here
  | some former =>
      cases second : right.get key with
      | none =>
          rw [first, second] at here
          cases here
      | some latter =>
          rw [first, second] at here
          cases here with
          | some alike => exact .inr ⟨former, latter, rfl, rfl, alike⟩

theorem SameKeys.isSome (same : SameKeys left right) (key : Bytes) :
    (left.get key).isSome = (right.get key).isSome := by
  rcases same.found key with ⟨first, second⟩ | ⟨former, latter, first, second, _⟩
  · rw [first, second]
  · rw [first, second]
    rfl

/-- Databases of the same keys have as many. -/
theorem SameKeys.count (same : SameKeys left right) : left.count = right.count := by
  have names : ∀ name, (right.get name).isSome ↔ name ∈ left.entries.map Prod.fst := by
    intro name
    rw [Table.mem_names_iff, same.isSome]
  rw [Table.count_eq_dedup fun name => (Table.mem_names_iff left name).symm,
    Table.count_eq_dedup names]

/-- What reads the same under every key after a change has the same keys. -/
theorem SameKeys.change {first second : Data} (changed : Bytes)
    (put : Option.Rel SameKey (first.get changed) (second.get changed))
    (same : SameKeys left right)
    (kept : ∀ name, changed ≠ name → first.get name = left.get name ∧
      second.get name = right.get name) : SameKeys first second := by
  intro name
  by_cases here : changed = name
  · rw [← here]
    exact put
  · rw [(kept name here).1, (kept name here).2]
    exact same name

theorem SameKeys.insert (same : SameKeys left right) (key : Bytes)
    (alike : SameKey former latter) :
    SameKeys (left.insert key former) (right.insert key latter) := by
  refine same.change key ?_ fun name apart => ?_
  · rw [Table.get_insert, Table.get_insert, if_pos rfl, if_pos rfl]
    rcases same.found key with ⟨first, second⟩ | ⟨held, there, first, second, before⟩
    · rw [first, second]
      exact .some alike
    · rw [first, second]
      exact .some before
  · rw [Table.get_insert, Table.get_insert, if_neg apart, if_neg apart]
    exact ⟨rfl, rfl⟩

theorem SameKeys.delete (same : SameKeys left right) (key : Bytes) :
    SameKeys (left.delete key).1 (right.delete key).1 := by
  refine same.change key ?_ fun name apart => ?_
  · rw [Table.get_delete, Table.get_delete, if_pos rfl, if_pos rfl]
    exact .none
  · rw [Table.get_delete, Table.get_delete, if_neg apart, if_neg apart]
    exact ⟨rfl, rfl⟩

/-- A new value for a key that both have. -/
theorem SameKeys.assign (same : SameKeys left right) {key : Bytes} {held there : KeyValue}
    (first : left.get key = some held) (second : right.get key = some there)
    (alike : SameKey former latter) :
    SameKeys (left.assign key former) (right.assign key latter) := by
  refine same.change key ?_ fun name apart => ?_
  · rw [Table.get_assign first, Table.get_assign second, if_pos rfl, if_pos rfl]
    exact .some alike
  · rw [Table.get_assign first, Table.get_assign second, if_neg apart, if_neg apart]
    exact ⟨rfl, rfl⟩

theorem SameKeys.clear : SameKeys left.clear right.clear := by
  intro key
  rw [Table.get_clear, Table.get_clear]
  exact .none

end Rules

/-! ## What commands do before they run -/

/-- The keys that are expired by now are the same. -/
theorem SameKeys.removeAllExpired {left right : Data} (same : SameKeys left right) (now : Nat)
    (keys : List Argument) :
    SameKeys (removeAllExpired now keys left) (removeAllExpired now keys right) := by
  intro key
  rw [get_removeAllExpired, get_removeAllExpired]
  split
  · rcases same.found key with ⟨first, second⟩ | ⟨former, latter, first, second, alike⟩
    · rw [first, second]
      exact .none
    · have late : former.expiredAt now = latter.expiredAt now := by
        rw [KeyValue.expiredAt, KeyValue.expiredAt, alike.expiry]
      rw [first, second]
      cases expired : latter.expiredAt now with
      | true =>
          rw [expired] at late
          simp only [Option.filter, late, expired]
          exact .none
      | false =>
          rw [expired] at late
          simp only [Option.filter, late, expired]
          exact .some alike
  · exact same key

theorem SameKeys.ready {left right : Data} (same : SameKeys left right) (clock : Option Nat)
    (command : KeyCommand) (args : List Argument) :
    SameKeys (ready clock command args left) (ready clock command args right) := by
  cases clock with
  | none =>
      rw [ready_unread, ready_unread]
      exact same
  | some now =>
      rw [ready_now, ready_now]
      split
      · exact same.removeAllExpired now _
      · exact same

/-! ## Collections -/

/-- HSET adds fields of the same types. -/
theorem setFields_types {mpf : Mpf} {left right : Table Scalar} (fields : List Argument)
    (types : ∀ name, (left.get name).map Scalar.type = (right.get name).map Scalar.type)
    (name : Bytes) : ((setFields mpf fields left).get name).map Scalar.type =
      ((setFields mpf fields right).get name).map Scalar.type := by
  induction fields, left using setFields.induct mpf generalizing right with
  | case1 field input rest table inductionHypothesis =>
      rw [setFields, setFields]
      refine inductionHypothesis fun name => ?_
      rw [Table.get_insert, Table.get_insert]
      split
      · rw [Option.map_or, Option.map_or, types name]
      · exact types name
  | case2 fields table short =>
      rw [setFields, setFields]
      · exact types name
      · exact short
      · exact short

/-- LPUSH and RPUSH add elements of the same types. -/
theorem push_types {mpf : Mpf} {insert : ListValue → Scalar → ListValue}
    (inserts : ∀ (left right : ListValue) (value : Scalar),
      left.elements.map Scalar.type = right.elements.map Scalar.type →
        (insert left value).elements.map Scalar.type =
          (insert right value).elements.map Scalar.type)
    (inputs : List Argument) {left right : ListValue}
    (types : left.elements.map Scalar.type = right.elements.map Scalar.type) :
    (inputs.foldl (fun list input => insert list (pushedValue mpf input)) left).elements.map
        Scalar.type =
      (inputs.foldl (fun list input => insert list (pushedValue mpf input)) right).elements.map
        Scalar.type := by
  induction inputs generalizing left right with
  | nil => exact types
  | cons input rest inductionHypothesis => exact inductionHypothesis (inserts _ _ _ types)

theorem llInsertFront_types (left right : ListValue) (value : Scalar)
    (types : left.elements.map Scalar.type = right.elements.map Scalar.type) :
    (left.llInsertFront value).elements.map Scalar.type =
      (right.llInsertFront value).elements.map Scalar.type :=
  congrArg (value.type :: ·) types

theorem llInsertBack_types (left right : ListValue) (value : Scalar)
    (types : left.elements.map Scalar.type = right.elements.map Scalar.type) :
    (left.llInsertBack value).elements.map Scalar.type =
      (right.llInsertBack value).elements.map Scalar.type := by
  simp only [ListValue.llInsertBack, List.map_append, types]

end TellyDB.Commands.Data
