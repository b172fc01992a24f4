import TellyDB.Commands.Data.Collections
import TellyDB.Commands.Data.StoredTables

/-!
Owns what HSET leaves under its key, as the commands that read hash tables show it.
An insertion keeps a field that is present, so the first value that a field gets is
the one it holds, whatever HSET is asked to set afterwards. A table that grows keeps
what lay in the memory it grows into, as fields that no one has set.
-/

namespace TellyDB.Commands.Data

open Resp Server Utils Utils.HashTable Database.Keyspace Lib FiniteMap SlotArray
open TellyDB.Database (Scalar Table stringKeys)

variable {mpf : Mpf} {entry : Entry} {data : Data} {key : Argument}
  {fields : List (Argument × Argument)}

/-- The arguments `f1 v1 … fn vn`. -/
def fieldArguments (fields : List (Argument × Argument)) : List Argument :=
  fields.flatMap fun field => [field.1, field.2]

/-- The value that the first of the fields under this name is given. -/
def firstValue (mpf : Mpf) (fields : List (Argument × Argument)) (name : Bytes) : Option Scalar :=
  (fields.find? fun field => field.1.bytes = name).map fun field => fieldValue mpf field.2

/-- The value that the last of the fields under this name is given. -/
def lastValue (mpf : Mpf) (fields : List (Argument × Argument)) (name : Bytes) : Option Scalar :=
  firstValue mpf fields.reverse name

/-- The hash table that a key holds. -/
def heldTable (data : Data) (key : Argument) : Option (Table Scalar) :=
  match (data.get key.bytes).map KeyValue.value with
  | some (.hashtable table) => some table
  | _ => none

/-- The value of a field under a key. -/
def heldValue (data : Data) (key : Argument) (name : Bytes) : Option Scalar :=
  (heldTable data key).bind fun table => table.get name

/-- The names of the fields under a key. -/
def heldNames (data : Data) (key : Argument) : List Bytes :=
  match heldTable data key with
  | some table => table.entries.map Prod.fst
  | none => []

/-- The number of slots of the table under a key; that of an absent key is created with 16. -/
def heldCapacity (data : Data) (key : Argument) : Nat :=
  match heldTable data key with
  | some table => table.capacity
  | none => 16

/-- The key is absent or holds a hash table. -/
def Settable (data : Data) (key : Argument) : Prop :=
  ∀ kv, data.get key.bytes = some kv → ∃ table, kv.value = .hashtable table

/-- The insertions, of these names into a table of this capacity and with these names, before
which the table grows, each with the capacity it grows to. -/
def growths : Nat → Nat → List Bytes → List Bytes → List (Nat × Nat)
  | _, _, _, [] => []
  | turn, capacity, held, name :: rest =>
      if 4 * held.length < 3 * capacity then growths (turn + 1) capacity (held.insert name) rest
      else (turn, 2 * capacity) :: growths (turn + 1) (2 * capacity) (held.insert name) rest

/-- Every array that a table grows into on these names has only NULL keys. -/
def ClearedFields (arrays : Nat → FieldArray) (turn capacity : Nat) (held names : List Bytes) :
    Prop :=
  ∀ growth ∈ growths turn capacity held names, ∀ slot < growth.2, arrays growth.1 slot = none

/-- Every array that a table grows into has only NULL keys. -/
structure ClearedGrowths (arrays : Arrays) (data : Data) (key : Argument)
    (fields : List (Argument × Argument)) : Prop where
  fields : ClearedFields arrays.fields 0 (heldCapacity data key) (heldNames data key)
    (fields.map fun field => field.1.bytes)
  keys : data.get key.bytes = none → (memory data).GrowsClean arrays.keys

/-- HGET, HTYPE, HGETALL and HVALS show these values under the key: a reply for each name, and
all of the fields once. -/
def Shows (keys : KeyTable) (key : Argument) (value : Bytes → Option Scalar) : Prop :=
  ∃ shown : List (Bytes × Scalar), (shown.map Prod.fst).Nodup ∧
    (∀ name scalar, (name, scalar) ∈ shown ↔ value name = some scalar) ∧
    (∀ name : Argument, hgetStored [key, name] keys =
      match value name.bytes with
      | some scalar => (writeScalar scalar).map .element
      | none => some .null) ∧
    (∀ name : Argument, htypeStored [key, name] keys =
      match value name.bytes with
      | some scalar => (getRespTypeName scalar.type).map .element
      | none => some .null) ∧
    hgetallStored [key] keys = some (.map shown.length
      (shown.flatMap fun field => .string field.1 :: dumpValue field.2)) ∧
    hvalsStored [key] keys = some (.array shown.length
      (shown.flatMap fun field => dumpValue field.2))

/-- The database has the keys it had and this one, once each, and the others hold what they
held. -/
structure KeepsKeys (keys : KeyTable) (data : Data) (key : Argument) : Prop where
  listed : (keys.present.map Prod.fst).Perm (key.bytes :: data.entries.map Prod.fst).dedup
  counted : keys.count = keys.present.length
  others : ∀ name, name ≠ key.bytes → lookUp keys name = some ((data.get name).map stored)

/-- HSET sets each of the fields to the last value it is given, and changes nothing else. -/
def SetsFields (mpf : Mpf) (arrays : Arrays) (entry : Entry) (data : Data) (key : Argument)
    (fields : List (Argument × Argument)) : Prop :=
  ∃ after table expiry,
    hsetStored mpf arrays entry (memory data) =
      some (after, entry.answer (.integer fields.length)) ∧
    lookUp after key.bytes = some (some ⟨.hashtable table, expiry⟩) ∧
    (∀ name, lookUp table name =
      some ((lastValue mpf fields name).or (heldValue data key name))) ∧
    Shows after key (fun name => (lastValue mpf fields name).or (heldValue data key name)) ∧
    table.count = (heldNames data key ++ fields.map fun field => field.1.bytes).dedup.length ∧
    KeepsKeys after data key

/-! ## The loop -/

theorem firstValue_cons (field : Argument × Argument) (rest : List (Argument × Argument))
    (name : Bytes) : firstValue mpf (field :: rest) name =
      if field.1.bytes = name then some (fieldValue mpf field.2) else firstValue mpf rest name := by
  by_cases here : field.1.bytes = name <;> simp [firstValue, here]

theorem firstValue_isSome (mpf : Mpf) (fields : List (Argument × Argument)) (name : Bytes) :
    (firstValue mpf fields name).isSome ↔ name ∈ fields.map fun field => field.1.bytes := by
  simp [firstValue]

theorem lastValue_isSome (mpf : Mpf) (fields : List (Argument × Argument)) (name : Bytes) :
    (lastValue mpf fields name).isSome ↔ name ∈ fields.map fun field => field.1.bytes := by
  rw [lastValue, firstValue_isSome, List.map_reverse, List.mem_reverse]

/-- Inserting a field into a table of the commands, as the next turn of the loop finds it. -/
theorem exists_insertField {array : FieldArray} (table : Table Scalar) {held : List Bytes}
    (names : held.Perm (table.entries.map Prod.fst)) (name : Bytes) (value : Scalar)
    (clean : ¬ 4 * held.length < 3 * table.capacity →
      ∀ slot < 2 * table.capacity, array slot = none) :
    ∃ (after : Table Scalar) (result : Option (HashTableElement Bytes Scalar)),
      insertIntoHashtable (2 * table.table.capacity) array table.table name value =
        some (after.table, result) ∧
      (held.insert name).Perm (after.entries.map Prod.fst) ∧
      after.capacity =
        (if 4 * held.length < 3 * table.capacity then table.capacity else 2 * table.capacity) ∧
      ∀ other, after.get other =
        if name = other then (table.get other).or (some value) else table.get other := by
  have count : table.table.count = held.length := by
    have length := names.length_eq
    rw [List.length_map, ← table.count_eq] at length
    exact length.symm
  obtain ⟨after, result, inserted, entered⟩ := table.exists_insert
    (fun full => clean (by rwa [count] at full)) name value
  have capacity := insertIntoHashtable_grown inserted
  rw [count] at capacity
  refine ⟨after, result, inserted, ?_, capacity, Table.get_insertIfAbsent entered⟩
  have left := entered.map Prod.fst
  rw [Table.names_insertIfAbsent] at left
  by_cases listed : name ∈ held
  · rw [if_pos (names.mem_iff.mp listed)] at left
    rw [List.insert_of_mem listed]
    exact names.trans left.symm
  · rw [if_neg fun member => listed (names.mem_iff.mpr member)] at left
    rw [List.insert_of_not_mem listed]
    exact (names.cons name).trans left.symm

/-- The growths behind one insertion. -/
theorem growths_cons (turn capacity : Nat) (held rest : List Bytes) (name : Bytes) :
    growths turn capacity held (name :: rest) =
      (if 4 * held.length < 3 * capacity then [] else [(turn, 2 * capacity)]) ++
        growths (turn + 1) (if 4 * held.length < 3 * capacity then capacity else 2 * capacity)
          (held.insert name) rest := by
  rw [growths]
  split <;> rfl

/-- Where the table grows into cleared arrays, a field keeps the value it has, else it gets the
first one it is given. -/
theorem insertFields_first {arrays : Nat → FieldArray} (fields : List (Argument × Argument))
    (turn : Nat) (table : Table Scalar) {held : List Bytes}
    (names : held.Perm (table.entries.map Prod.fst))
    (cleared : ClearedFields arrays turn table.capacity held
      (fields.map fun field => field.1.bytes)) :
    ∃ after : Table Scalar,
      insertFields mpf arrays turn (fieldArguments fields) table.table = some after.table ∧
      ∀ name, after.get name = (table.get name).or (firstValue mpf fields name) := by
  induction fields generalizing turn table held with
  | nil =>
      refine ⟨table, rfl, fun name => ?_⟩
      simp [firstValue]
  | cons field rest inductionHypothesis =>
      rw [ClearedFields, List.map_cons, growths_cons] at cleared
      obtain ⟨next, result, inserted, nextNames, capacity, reads⟩ :=
        exists_insertField table names field.1.bytes (fieldValue mpf field.2) fun full =>
          cleared (turn, 2 * table.capacity) (List.mem_append_left _ (by simp [full]))
      rw [← capacity] at cleared
      obtain ⟨after, ran, values⟩ := inductionHypothesis (turn + 1) next nextNames
        fun growth member => cleared growth (List.mem_append_right _ member)
      refine ⟨after, ?_, fun name => ?_⟩
      · change insertFields mpf arrays turn (field.1 :: field.2 :: fieldArguments rest) _ = _
        rw [insertFields, inserted]
        exact ran
      · rw [values, reads, firstValue_cons]
        by_cases here : field.1.bytes = name <;> simp [here]

/-- What an array came with is never counted. -/
theorem insertFields_uncounted {arrays : Nat → FieldArray} {turn : Nat} {args : List Argument}
    {table after : FieldTable} (positive : 0 < table.capacity)
    (uncounted : table.count < table.present.length)
    (ran : insertFields mpf arrays turn args table = some after) :
    after.count < after.present.length := by
  induction turn, args, table using insertFields.induct with
  | case1 turn name input rest table inductionHypothesis =>
      rw [insertFields, Option.bind_eq_bind, Option.bind_eq_some_iff] at ran
      obtain ⟨⟨next, result⟩, inserted, ran⟩ := ran
      obtain ⟨nextPositive, slots⟩ := insertIntoHashtable_uncounted positive inserted
      exact inductionHypothesis _ nextPositive (by omega) ran
  | case2 turn args table short =>
      rw [insertFields] at ran
      · cases ran
        exact uncounted
      · exact short

/-- Where the loop leaves no more fields than it counts, every array that the table grew into was
cleared. -/
theorem ClearedFields.of_counted {arrays : Nat → FieldArray}
    (fields : List (Argument × Argument)) (turn : Nat) (table : Table Scalar) {held : List Bytes}
    (names : held.Perm (table.entries.map Prod.fst)) {after : FieldTable}
    (ran : insertFields mpf arrays turn (fieldArguments fields) table.table = some after)
    (counted : after.present.length = after.count) :
    ClearedFields arrays turn table.capacity held (fields.map fun field => field.1.bytes) := by
  induction fields generalizing turn table held with
  | nil =>
      intro growth member
      cases member
  | cons field rest inductionHypothesis =>
      change insertFields mpf arrays turn (field.1 :: field.2 :: fieldArguments rest) _ = _ at ran
      rw [insertFields, Option.bind_eq_bind, Option.bind_eq_some_iff] at ran
      obtain ⟨⟨step, result⟩, inserted, ran⟩ := ran
      have count : table.table.count = held.length := by
        have length := names.length_eq
        rw [List.length_map, ← table.count_eq] at length
        exact length.symm
      have clean : ¬ 4 * held.length < 3 * table.capacity →
          ∀ slot < 2 * table.capacity, arrays turn slot = none := by
        intro full slot bound
        by_contra occupied
        obtain ⟨entry, kept⟩ := Option.ne_none_iff_exists'.mp occupied
        have came := List.length_pos_of_mem (mem_entries.mpr ⟨slot, bound, kept⟩)
        obtain ⟨positive, slots⟩ :=
          insertIntoHashtable_uncounted table.roomy.wellFormed.positive inserted
        rw [count, if_neg (show ¬ 4 * held.length < 3 * table.table.capacity from full)] at slots
        have whole : table.table.present.length = held.length :=
          table.roomy.wellFormed.counted.symm.trans count
        have more := insertFields_uncounted positive
          (show step.count < step.present.length by
            rw [Table.capacity] at came
            omega) ran
        omega
      obtain ⟨next, other, again, nextNames, capacity, -⟩ :=
        exists_insertField table names field.1.bytes (fieldValue mpf field.2) clean
      rw [inserted] at again
      cases again
      have later := inductionHypothesis (turn + 1) next nextNames ran
      rw [ClearedFields, List.map_cons, growths_cons]
      rw [capacity] at later
      intro growth member
      rcases List.mem_append.mp member with here | behind
      · split at here
        · cases here
        · next full =>
            cases List.mem_singleton.mp here
            exact clean full
      · exact later growth behind

theorem holds_iff (data : Data) (key : Argument) (fields : List (Argument × Argument))
    (name : Bytes) :
    ((heldValue data key name).or (firstValue mpf fields name)).isSome ↔
      name ∈ heldNames data key ++ fields.map fun field => field.1.bytes := by
  rw [Option.isSome_or, Bool.or_eq_true, firstValue_isSome, List.mem_append, heldValue, heldNames]
  cases heldTable data key with
  | none => simp
  | some table => rw [Table.mem_names_iff]; rfl

theorem length_fieldArguments (fields : List (Argument × Argument)) :
    (fieldArguments fields).length = 2 * fields.length := by
  induction fields with
  | nil => rfl
  | cons field rest inductionHypothesis =>
      have unfolded : fieldArguments (field :: rest) =
          field.1 :: field.2 :: fieldArguments rest := rfl
      rw [unfolded, List.length_cons, List.length_cons, List.length_cons, inductionHypothesis]
      omega

/-- The commands show the fields that the table under the key holds. -/
theorem shows_table {after : KeyTable} {table : Table Scalar} {expiry : Option Nat}
    (held : lookUp after key.bytes = some (some ⟨.hashtable table.table, expiry⟩)) :
    Shows after key table.get := by
  refine ⟨table.entries, table.names_nodup, fun name scalar => Table.get_eq_some_iff.symm,
    fun name => ?_, fun name => ?_, ?_, ?_⟩
  · rw [hgetStored, onStoredTable, held]
    cases found : table.get name.bytes <;> simp [lookUp_table, found]
  · rw [htypeStored, onStoredTable, held]
    cases found : table.get name.bytes <;> simp [lookUp_table, found]
  · rw [← table.count_eq, hgetallStored, onStoredTable, held]
    rfl
  · rw [← table.count_eq, hvalsStored, onStoredTable, held]
    rfl

theorem length_shown (fields : List (Bytes × Scalar)) :
    (fields.flatMap fun field => .string field.1 :: dumpValue field.2).length =
      fields.length + (fields.flatMap fun field => dumpValue field.2).length := by
  induction fields with
  | nil => rfl
  | cons field rest inductionHypothesis =>
      simp only [List.flatMap_cons, List.length_append, List.length_cons, inductionHypothesis]
      omega

/-- Where the commands show each field once, the table holds as many as it counts. -/
theorem Shows.counted {keys : KeyTable} {value : Bytes → Option Scalar}
    (shows : Shows keys key value) {table : FieldTable} {expiry : Option Nat}
    (held : lookUp keys key.bytes = some (some ⟨.hashtable table, expiry⟩)) :
    table.present.length = table.count := by
  obtain ⟨shown, -, -, -, -, all, values⟩ := shows
  rw [hgetallStored, onStoredTable, held] at all
  rw [hvalsStored, onStoredTable, held] at values
  simp only [Option.bind_eq_bind, Option.bind_some, Option.some.injEq, Reply.map.injEq] at all
  simp only [Option.bind_eq_bind, Option.bind_some, Option.some.injEq, Reply.array.injEq] at values
  have pairs := congrArg List.length all.2
  rw [length_shown, length_shown, values.2] at pairs
  omega

/-! ## The command -/

theorem dedup_cons_keys (data : Data) (absent : data.get key.bytes = none) :
    (key.bytes :: data.entries.map Prod.fst).dedup = key.bytes :: data.entries.map Prod.fst := by
  apply List.Nodup.dedup
  rw [List.nodup_cons, Table.mem_names_iff, absent]
  exact ⟨Bool.false_ne_true, data.names_nodup⟩

theorem dedup_keys {kv : KeyValue} (held : data.get key.bytes = some kv) :
    (key.bytes :: data.entries.map Prod.fst).dedup = data.entries.map Prod.fst := by
  have listed : key.bytes ∈ data.entries.map Prod.fst := by
    rw [Table.mem_names_iff, held]
    rfl
  rw [List.dedup_cons_of_mem listed, data.names_nodup.dedup]

theorem keepsKeys_changeValue {kv : KeyValue} (held : data.get key.bytes = some kv)
    (value : Value) : KeepsKeys (memory (changeValue data key.bytes kv value)) data key := by
  obtain ⟨rest, before, after⟩ := Table.entries_assign held { kv with value }
  have slots : (memory (changeValue data key.bytes kv value)).present =
      (changeValue data key.bytes kv value).entries.map (Prod.map id stored) :=
    present_mapValues _
  refine ⟨?_, ?_, ?_⟩
  · rw [dedup_keys held, slots, List.map_map]
    exact (after.map Prod.fst).trans (before.map Prod.fst).symm
  · exact (changeValue data key.bytes kv value).roomy.wellFormed.mapValues.counted
  · intro name other
    rw [lookUp_memory, get_changeValue held, if_neg other.symm]

/-- Where every array is cleared, HSET leaves the fields as its loop does, and every other key
alone. -/
theorem hset_ran (mpf : Mpf) {arrays : Arrays} (settable : Settable data key)
    (nonempty : fields ≠ []) (args : entry.args = key :: fieldArguments fields)
    (cleared : ClearedGrowths arrays data key fields) :
    ∃ (after : KeyTable) (table : Table Scalar) (expiry : Option Nat),
      hsetStored mpf arrays entry (memory data) =
        some (after, entry.answer (.integer fields.length)) ∧
      lookUp after key.bytes = some (some ⟨.hashtable table.table, expiry⟩) ∧
      (∀ name, table.get name = (heldValue data key name).or (firstValue mpf fields name)) ∧
      KeepsKeys after data key := by
  obtain ⟨field, rest, rfl⟩ := List.exists_cons_of_ne_nil nonempty
  have unfolded : fieldArguments (field :: rest) = field.1 :: field.2 :: fieldArguments rest := rfl
  have length := length_fieldArguments (field :: rest)
  rw [unfolded] at args length
  have even : ¬(field.1 :: field.2 :: fieldArguments rest).length % 2 ≠ 0 := by omega
  have half : (field.1 :: field.2 :: fieldArguments rest).length / 2 =
      (field :: rest).length := by omega
  have clearedFields := cleared.fields
  cases held : data.get key.bytes with
  | none =>
      have none_held : heldTable data key = none := by
        rw [heldTable, held]
        rfl
      rw [heldCapacity, heldNames, none_held] at clearedFields
      obtain ⟨table, filled, reads⟩ := insertFields_first (field :: rest) 0
        (Table.create 16 capacity_positive) (by rw [Table.entries_create]; exact .nil)
        clearedFields
      obtain ⟨after, result, inserted, finds, names, counted⟩ :=
        exists_storeKey held (cleared.keys held) ⟨.hashtable table.table, none⟩
      refine ⟨after, table, none, ?_, ?_, ?_, ⟨?_, counted, ?_⟩⟩
      · rw [hsetStored, args]
        simp only [even, if_false, half, lookUp_memory, held, Option.bind_eq_bind,
          Option.bind_some, Option.map_none]
        rw [unfolded] at filled
        rw [show insertFields mpf arrays.fields 0 (field.1 :: field.2 :: fieldArguments rest)
          (createHashtable 16 stringKeys) = _ from filled, Option.bind_some, inserted]
        rfl
      · rw [finds, if_pos rfl]
      · intro name
        rw [reads, heldValue, none_held, Table.get_create]
        rfl
      · rw [dedup_cons_keys data held]
        exact names
      · intro name other
        rw [finds, if_neg other.symm]
  | some kv =>
      obtain ⟨old, value⟩ := settable kv held
      have old_held : heldTable data key = some old := by
        rw [heldTable, held, Option.map_some, value]
      rw [heldCapacity, heldNames, old_held] at clearedFields
      obtain ⟨table, filled, reads⟩ := insertFields_first (field :: rest) 0 old
        (.refl _) clearedFields
      refine ⟨memory (changeValue data key.bytes kv (.hashtable table)), table, kv.expiry, ?_, ?_,
        ?_, keepsKeys_changeValue held _⟩
      · rw [hsetStored, args]
        have assigned := assignStored_memory held { kv with value := .hashtable table }
        simp only [even, if_false, half, lookUp_memory, held, Option.bind_eq_bind,
          Option.bind_some, Option.map_some, stored, value, storedValue] at assigned ⊢
        rw [unfolded] at filled
        rw [filled, Option.bind_some, assigned]
        rfl
      · rw [lookUp_memory, get_changeValue held, if_pos rfl]
        rfl
      · intro name
        rw [reads, heldValue, old_held]
        rfl

/-- A database that counts its keys grew into a cleared array. -/
theorem KeepsKeys.clean {fresh : Nat → Option (HashTableElement Bytes StoredKeyValue)}
    {kv : StoredKeyValue} {after : KeyTable}
    {result : Option (HashTableElement Bytes StoredKeyValue)}
    (inserted : insertIntoHashtable (2 * (memory data).capacity) fresh (memory data) key.bytes kv =
      some (after, result)) (keeps : KeepsKeys after data key) :
    (memory data).GrowsClean fresh := by
  intro full slot bound
  by_contra occupied
  obtain ⟨entry, came⟩ := Option.ne_none_iff_exists'.mp occupied
  have some := List.length_pos_of_mem (mem_entries.mpr ⟨slot, bound, came⟩)
  have formed : (memory data).WellFormed := data.roomy.wellFormed.mapValues
  obtain ⟨-, slots⟩ := insertIntoHashtable_uncounted formed.positive inserted
  rw [if_neg full] at slots
  have counted := keeps.counted
  have whole := formed.counted
  omega

/-- Setting the fields takes cleared arrays. -/
theorem SetsFields.cleared {arrays : Arrays} (settable : Settable data key)
    (nonempty : fields ≠ []) (args : entry.args = key :: fieldArguments fields)
    (sets : SetsFields mpf arrays entry data key fields) :
    ClearedGrowths arrays data key fields := by
  obtain ⟨after, table, expiry, ran, held, -, shows, -, keeps⟩ := sets
  have counted := shows.counted held
  obtain ⟨field, rest, rfl⟩ := List.exists_cons_of_ne_nil nonempty
  have unfolded : fieldArguments (field :: rest) = field.1 :: field.2 :: fieldArguments rest := rfl
  have length := length_fieldArguments (field :: rest)
  rw [unfolded] at args length
  have even : ¬(field.1 :: field.2 :: fieldArguments rest).length % 2 ≠ 0 := by omega
  rw [hsetStored, args] at ran
  simp only [even, if_false, lookUp_memory, Option.bind_eq_bind, Option.bind_some] at ran
  cases found : data.get key.bytes with
  | none =>
      rw [found, Option.map_none] at ran
      simp only [Option.bind_eq_some_iff] at ran
      obtain ⟨filled, ran, ⟨reached, result⟩, inserted, same⟩ := ran
      rw [Option.some.injEq, Prod.mk.injEq] at same
      obtain ⟨rfl, -⟩ := same
      have clean := keeps.clean inserted
      obtain ⟨same, other, again, finds, -⟩ :=
        exists_storeKey found clean ⟨.hashtable filled, none⟩
      rw [inserted] at again
      cases again
      rw [finds, if_pos rfl] at held
      cases held
      have none_held : heldTable data key = none := by
        rw [heldTable, found]
        rfl
      refine ⟨?_, fun _ => clean⟩
      rw [heldCapacity, heldNames, none_held]
      exact ClearedFields.of_counted (field :: rest) 0 (Table.create 16 capacity_positive)
        (by rw [Table.entries_create]; exact .nil) ran counted
  | some kv =>
      obtain ⟨old, value⟩ := settable kv found
      rw [found, Option.map_some] at ran
      simp only [stored, value, storedValue, Option.bind_eq_some_iff] at ran
      obtain ⟨filled, ran, reached, assigned, same⟩ := ran
      rw [Option.some.injEq, Prod.mk.injEq] at same
      obtain ⟨rfl, -⟩ := same
      rw [lookUp_assignStored found assigned] at held
      cases held
      have old_held : heldTable data key = some old := by
        rw [heldTable, found, Option.map_some, value]
      refine ⟨?_, fun absent => ?_⟩
      · rw [heldCapacity, heldNames, old_held]
        exact .of_counted (field :: rest) 0 old (.refl _) ran counted
      · rw [found] at absent
        cases absent

/-- What a field holds is the last value it is given only where that is the first it gets. -/
theorem SetsFields.first_eq_last {arrays : Arrays} (settable : Settable data key)
    (nonempty : fields ≠ []) (args : entry.args = key :: fieldArguments fields)
    (sets : SetsFields mpf arrays entry data key fields) :
    ∀ field ∈ fields, (heldValue data key field.1.bytes).or (firstValue mpf fields field.1.bytes) =
      lastValue mpf fields field.1.bytes := by
  have cleared := sets.cleared settable nonempty args
  obtain ⟨after, table, expiry, ran, held, reads, -⟩ := sets
  obtain ⟨reached, left, deadline, ranAgain, leftHeld, leftReads, -⟩ :=
    hset_ran mpf settable nonempty args cleared
  rw [ran, Option.some.injEq, Prod.mk.injEq] at ranAgain
  obtain ⟨rfl, -⟩ := ranAgain
  rw [held] at leftHeld
  cases leftHeld
  intro field member
  have listed : (lastValue mpf fields field.1.bytes).isSome :=
    (lastValue_isSome mpf fields _).mpr (List.mem_map_of_mem member)
  obtain ⟨value, last⟩ := Option.isSome_iff_exists.mp listed
  have read := reads field.1.bytes
  rw [lookUp_table, last, Option.some_or, Option.some.injEq] at read
  rw [← leftReads, read, last]

/-- HSET sets the fields exactly when each one that exists holds its last value already, each new
one is given the same value first and last, and the tables that grow get cleared memory. -/
theorem hset_sets_iff {arrays : Arrays} (settable : Settable data key) (nonempty : fields ≠ [])
    (args : entry.args = key :: fieldArguments fields) :
    SetsFields mpf arrays entry data key fields ↔
      (∀ field ∈ fields, (heldValue data key field.1.bytes).or
        (firstValue mpf fields field.1.bytes) = lastValue mpf fields field.1.bytes) ∧
      ClearedGrowths arrays data key fields := by
  constructor
  · intro sets
    exact ⟨sets.first_eq_last settable nonempty args, sets.cleared settable nonempty args⟩
  · rintro ⟨agree, cleared⟩
    obtain ⟨after, table, expiry, ran, held, reads, keeps⟩ :=
      hset_ran mpf settable nonempty args cleared
    have sets : ∀ name,
        table.get name = (lastValue mpf fields name).or (heldValue data key name) := by
      intro name
      rw [reads]
      by_cases listed : name ∈ fields.map fun field => field.1.bytes
      · obtain ⟨field, member, rfl⟩ := List.mem_map.mp listed
        obtain ⟨value, last⟩ := Option.isSome_iff_exists.mp
          ((lastValue_isSome mpf fields _).mpr listed)
        rw [agree field member, last, Option.some_or]
      · have unlisted := listed
        rw [← firstValue_isSome mpf, Option.not_isSome_iff_eq_none] at listed
        rw [← lastValue_isSome mpf, Option.not_isSome_iff_eq_none] at unlisted
        rw [listed, unlisted, Option.or_none, Option.none_or]
    refine ⟨after, table.table, expiry, ran, held, ?_, ?_, ?_, keeps⟩
    · intro name
      rw [lookUp_table, sets]
    · rw [← funext sets]
      exact shows_table held
    · exact table.count_eq_dedup fun name => by rw [reads]; exact holds_iff data key fields name

/-- A number and a text for two new fields. -/
def newFields : List (Argument × Argument) :=
  [(⟨text "f", [0]⟩, ⟨text "1", [0]⟩), (⟨text "g", [0]⟩, ⟨text "x", [0]⟩)]

/-- One new field that is given two numbers. -/
def repeatedField : List (Argument × Argument) :=
  [(⟨text "f", [0]⟩, ⟨text "1", [0]⟩), (⟨text "f", [0]⟩, ⟨text "2", [0]⟩)]

/-- A new field for each of these letters. -/
def letterFields (letters : String) : List (Argument × Argument) :=
  (text letters).map fun letter => (⟨[letter], [0]⟩, ⟨[letter], [0]⟩)

theorem settable_empty (key : Argument) : Settable (Table.create 16 capacity_positive) key := by
  intro kv held
  rw [Table.get_create] at held
  cases held

theorem hset_sets_new :
    SetsFields Mpf.unused .cleared
      ⟨some .resp3, ⟨text "h", [0]⟩ :: fieldArguments newFields, Permission.all⟩
      (Table.create 16 capacity_positive) ⟨text "h", [0]⟩ newFields :=
  (hset_sets_iff (settable_empty _) (List.cons_ne_nil _ _) rfl).mpr ⟨by
    simp only [heldValue, heldTable, Table.get_create, Option.map_none, Option.bind_none,
      Option.none_or]
    decide +kernel, ⟨fun _ _ _ _ => rfl, fun _ _ _ _ => rfl⟩⟩

/-- HSET h f 1 f 2 leaves 1, and a thirteenth field brings the one that lay in the memory that the
table grows into. -/
theorem hset_fails : Settable (Table.create 16 capacity_positive) ⟨text "h", [0]⟩ ∧
    ¬ SetsFields Mpf.unused .cleared
      ⟨some .resp3, ⟨text "h", [0]⟩ :: fieldArguments repeatedField, Permission.all⟩
      (Table.create 16 capacity_positive) ⟨text "h", [0]⟩ repeatedField ∧
    ¬ SetsFields Mpf.unused ⟨fun _ => stale, fun _ => none⟩
      ⟨some .resp3, ⟨text "h", [0]⟩ :: fieldArguments (letterFields "abcdefghijklm"),
        Permission.all⟩
      (Table.create 16 capacity_positive) ⟨text "h", [0]⟩ (letterFields "abcdefghijklm") := by
  refine ⟨settable_empty _, fun sets => ?_, fun sets => ?_⟩
  · have agree := sets.first_eq_last (settable_empty _) (List.cons_ne_nil _ _) rfl _
      (List.mem_cons_self ..)
    simp only [heldValue, heldTable, Table.get_create, Option.map_none, Option.bind_none,
      Option.none_or] at agree
    revert agree
    decide +kernel
  · have cleared := (sets.cleared (settable_empty _) (List.cons_ne_nil _ _) rfl).fields
    simp only [heldCapacity, heldNames, heldTable, Table.get_create, Option.map_none] at cleared
    have free := cleared (12, 32) (by decide) 6 (by decide)
    cases free


end TellyDB.Commands.Data
