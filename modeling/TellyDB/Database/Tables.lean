import TellyDB.Database.Values
import TellyDB.Utils.HashTable.Loading

/-!
Owns hash tables under string keys as the commands hold them between two calls:
each carries its well-formedness, every call on it ends, and it reads as a finite
map from strings to values. A table that grows is given a cleared array.
-/

namespace TellyDB.Database

open Resp Utils Lib FiniteMap SlotArray HashTable

variable {V : Type}

/-- A hash table made by `create_hashtable(capacity, string_hash, string_compare)`. -/
structure Table (V : Type) where
  table : HashTable Bytes V
  roomy : table.Roomy
  keys_eq : table.keys = stringKeys

namespace Table

/-- `create_hashtable`. -/
def create (capacity : Nat) (positive : 1 ≤ capacity) : Table V where
  table := createHashtable capacity stringKeys
  roomy := (Reachable.create positive).roomy
  keys_eq := rfl

def count (table : Table V) : Nat := table.table.count

def capacity (table : Table V) : Nat := table.table.capacity

/-- The entries in slot order, as `foreach_hashtable` visits them. -/
def entries (table : Table V) : List (Bytes × V) := table.table.present

/-- The value of the element that `get_from_hashtable` finds. -/
def get (table : Table V) (key : Bytes) : Option V :=
  (getFromHashtable table.capacity table.table key).join.map Prod.snd

theorem roomy_of_insert (table : Table V) {fresh : Nat → Option (HashTableElement Bytes V)}
    (clean : table.table.GrowsClean fresh) {key : Bytes} {value : V} {after : HashTable Bytes V}
    {result : Option (HashTableElement Bytes V)}
    (inserted : insertIntoHashtable (2 * table.capacity) fresh table.table key value =
      some (after, result)) :
    after.Roomy ∧ after.keys = stringKeys ∧
      after.present.Perm (insertIfAbsent stringKeys.equality table.entries key value) := by
  obtain ⟨reached, spec, wellFormed, sameKeys, entered⟩ :=
    table.roomy.wellFormed.insertIntoHashtable_clean clean key value
  have same := (spec _ (Nat.le_refl _)).symm.trans inserted
  rw [Option.some.injEq, Prod.mk.injEq] at same
  rcases same with ⟨rfl, -⟩
  refine ⟨⟨wellFormed, insertIntoHashtable_room inserted table.roomy.wellFormed.positive
    table.roomy.room⟩, sameKeys.trans table.keys_eq, ?_⟩
  rwa [table.keys_eq] at entered

/-- Inserting into a table that grows into free slots ends. -/
theorem exists_insert (table : Table V) {fresh : Nat → Option (HashTableElement Bytes V)}
    (clean : table.table.GrowsClean fresh) (key : Bytes) (value : V) :
    ∃ (after : Table V) (result : Option (HashTableElement Bytes V)),
      insertIntoHashtable (2 * table.capacity) fresh table.table key value =
        some (after.table, result) ∧
      after.entries.Perm (insertIfAbsent stringKeys.equality table.entries key value) := by
  obtain ⟨reached, spec, -⟩ := table.roomy.wellFormed.insertIntoHashtable_clean clean key value
  have inserted := spec _ (Nat.le_refl _)
  obtain ⟨roomy, keys_eq, entered⟩ := table.roomy_of_insert clean inserted
  exact ⟨⟨reached, roomy, keys_eq⟩, _, inserted, entered⟩

theorem growsClean_none (table : Table V) : table.table.GrowsClean fun _ => none :=
  fun _ _ _ => rfl

/-- `insert_into_hashtable` where the array that `grow_hashtable` allocates is cleared; then it always
ends. `grow_hashtable` clears nothing, and what other memory does is the subject of
`HashTable.growth_keeps_iff`. -/
def insert (table : Table V) (key : Bytes) (value : V) : Table V :=
  match inserted : insertIntoHashtable (2 * table.capacity) (fun _ => none) table.table key
      value with
  | some (after, _) =>
      ⟨after, (table.roomy_of_insert table.growsClean_none inserted).1,
        (table.roomy_of_insert table.growsClean_none inserted).2.1⟩
  | none => table

theorem insertIntoHashtable_eq (table : Table V) (key : Bytes) (value : V) :
    ∃ result, insertIntoHashtable (2 * table.capacity) (fun _ => none) table.table key value =
      some ((table.insert key value).table, result) := by
  obtain ⟨reached, ends, -⟩ := table.roomy.wellFormed.insertIntoHashtable_spec key value
  unfold insert
  split
  · next after result inserted => exact ⟨result, inserted⟩
  · next stuck =>
      exact absurd (stuck.symm.trans (ends _ (Nat.le_refl _))) (Option.some_ne_none _).symm

theorem roomy_of_delete (table : Table V) {key : Bytes} {after : HashTable Bytes V}
    {deleted : Bool}
    (removed : deleteFromHashtable (deletionTurns table.capacity) table.table key =
      some (after, deleted)) :
    after.Roomy ∧ after.keys = stringKeys ∧
      after.present.Perm (erase stringKeys.equality table.entries key) ∧
      deleted = (find stringKeys.equality table.entries key).isSome := by
  obtain ⟨reached, spec, wellFormed, sameKeys, erased⟩ :=
    table.roomy.wellFormed.deleteFromHashtable_spec key
  have same := (spec _ (Nat.le_refl _)).symm.trans removed
  rw [Option.some.injEq, Prod.mk.injEq] at same
  rcases same with ⟨rfl, found⟩
  have ran : run (deletionTurns table.capacity) table.table (.delete key) =
      some (reached, .answer deleted) := by
    rw [run, removed]
    rfl
  rw [table.keys_eq] at erased found
  exact ⟨⟨wellFormed, run_room ran table.roomy.wellFormed.positive table.roomy.room⟩,
    sameKeys.trans table.keys_eq, erased, found.symm⟩

/-- `delete_from_hashtable`. It always ends. -/
def delete (table : Table V) (key : Bytes) : Table V × Bool :=
  match removed : deleteFromHashtable (deletionTurns table.capacity) table.table key with
  | some (after, deleted) =>
      (⟨after, (table.roomy_of_delete removed).1, (table.roomy_of_delete removed).2.1⟩, deleted)
  | none => (table, false)

/-- `clear_hashtable` with a destructor. -/
def clear (table : Table V) : Table V where
  table := (clearHashtable table.table true).1
  roomy :=
    ⟨(table.roomy.wellFormed.clear true).1,
      run_room (show run 0 table.table (.clear true) = some (_, .done) from rfl)
        table.roomy.wellFormed.positive table.roomy.room⟩
  keys_eq := (table.roomy.wellFormed.clear true).2.1.trans table.keys_eq

/-- What an assignment through the element under `key` leaves. -/
def assign (table : Table V) (key : Bytes) (value : V) : Table V :=
  match probe table.capacity table.table key with
  | some (some index) =>
      match held : table.table.elements index with
      | some (occupant, _) =>
          { table := { table.table with
              elements := Function.update table.table.elements index (some (occupant, value)) }
            roomy := ⟨table.roomy.wellFormed.assign held, table.roomy.room⟩
            keys_eq := table.keys_eq }
      | none => table
  | _ => table

/-! ## The finite map -/

theorem same_iff {left right : Bytes} : stringKeys.equality.same left right = true ↔
    left = right := by
  show (some left == some right) = true ↔ _
  rw [beq_iff_eq, Option.some.injEq]

theorem distinct (table : Table V) : Distinct stringKeys.equality table.entries := by
  have distinct := table.roomy.wellFormed.distinct
  rwa [table.keys_eq] at distinct

theorem get_eq_find (table : Table V) (key : Bytes) :
    table.get key = (find stringKeys.equality table.entries key).map Prod.snd := by
  rw [get, capacity, table.roomy.wellFormed.getFromHashtable_eq key (Nat.le_refl _),
    table.keys_eq]
  rfl

theorem get_eq_some_iff {table : Table V} {key : Bytes} {value : V} :
    table.get key = some value ↔ (key, value) ∈ table.entries := by
  rw [get_eq_find, Option.map_eq_some_iff]
  constructor
  · rintro ⟨⟨occupant, held⟩, found, rfl⟩
    rcases table.distinct.find_eq_some_iff.mp found with ⟨member, same⟩
    rw [same_iff] at same
    cases same
    exact member
  · intro member
    exact ⟨(key, value), table.distinct.find_eq_some_iff.mpr ⟨member, same_iff.mpr rfl⟩, rfl⟩

/-- A table that has the entries of `other` reads as `other` does. -/
theorem get_perm {table : Table V} {entries : List (Bytes × V)}
    (permutation : table.entries.Perm entries) (key : Bytes) :
    table.get key = (find stringKeys.equality entries key).map Prod.snd := by
  rw [get_eq_find, table.distinct.find_perm permutation]

theorem count_eq (table : Table V) : table.count = table.entries.length :=
  table.roomy.wellFormed.counted

@[simp] theorem entries_create (capacity : Nat) (positive : 1 ≤ capacity) :
    (create capacity positive : Table V).entries = [] :=
  SlotArray.entries_free _

@[simp] theorem get_create (capacity : Nat) (positive : 1 ≤ capacity) (key : Bytes) :
    (create capacity positive : Table V).get key = none := by
  rw [get_eq_find, entries_create]
  rfl

@[simp] theorem entries_clear (table : Table V) : table.clear.entries = [] :=
  (table.roomy.wellFormed.clear true).2.2

@[simp] theorem get_clear (table : Table V) (key : Bytes) : table.clear.get key = none := by
  rw [get_eq_find, entries_clear]
  rfl

theorem entries_insert (table : Table V) (key : Bytes) (value : V) :
    (table.insert key value).entries.Perm
      (insertIfAbsent stringKeys.equality table.entries key value) := by
  obtain ⟨result, inserted⟩ := table.insertIntoHashtable_eq key value
  exact (table.roomy_of_insert table.growsClean_none inserted).2.2

/-- An insertion keeps the value of a key that is present. -/
theorem get_insertIfAbsent {table after : Table V} {inserted : Bytes} {value : V}
    (entered : after.entries.Perm
      (insertIfAbsent stringKeys.equality table.entries inserted value)) (key : Bytes) :
    after.get key =
      if inserted = key then (table.get key).or (some value) else table.get key := by
  rw [get_perm entered, find_insertIfAbsent, ← get_eq_find]
  simp only [same_iff]

theorem get_insert (table : Table V) (inserted key : Bytes) (value : V) :
    (table.insert inserted value).get key =
      if inserted = key then (table.get key).or (some value) else table.get key :=
  get_insertIfAbsent (table.entries_insert inserted value) key

theorem names_insertIfAbsent (entries : List (Bytes × V)) (name : Bytes) (value : V) :
    (insertIfAbsent stringKeys.equality entries name value).map Prod.fst =
      if name ∈ entries.map Prod.fst then entries.map Prod.fst
      else name :: entries.map Prod.fst := by
  have found_iff : find stringKeys.equality entries name = none ↔
      name ∉ entries.map Prod.fst := by
    rw [find_eq_none_iff, List.mem_map]
    constructor
    · rintro apart ⟨entry, member, rfl⟩
      have different := apart entry member
      rw [same_iff.mpr rfl] at different
      cases different
    · intro unlisted entry member
      rw [Bool.eq_false_iff, Ne, same_iff]
      exact fun same => unlisted ⟨entry, member, same⟩
  rw [insertIfAbsent]
  split
  · next entry found =>
      rw [if_pos]
      by_contra unlisted
      rw [found_iff.mpr unlisted] at found
      cases found
  · next absent =>
      rw [if_neg (found_iff.mp absent)]
      rfl

theorem delete_spec (table : Table V) (key : Bytes) :
    (table.delete key).1.entries.Perm (erase stringKeys.equality table.entries key) ∧
      (table.delete key).2 = (table.get key).isSome := by
  unfold delete
  split
  · next after deleted removed =>
      rcases table.roomy_of_delete removed with ⟨-, -, erased, found⟩
      rw [get_eq_find, Option.isSome_map]
      exact ⟨erased, found⟩
  · next stuck =>
      obtain ⟨reached, spec, -⟩ := table.roomy.wellFormed.deleteFromHashtable_spec key
      rw [capacity, spec _ (Nat.le_refl _)] at stuck
      cases stuck

@[simp] theorem deleted_eq (table : Table V) (key : Bytes) :
    (table.delete key).2 = (table.get key).isSome :=
  (table.delete_spec key).2

theorem get_delete (table : Table V) (deleted key : Bytes) :
    (table.delete deleted).1.get key = if deleted = key then none else table.get key := by
  rw [get_perm (table.delete_spec deleted).1, find_erase]
  simp only [same_iff]
  split
  · rfl
  · rw [get_eq_find]

/-- An assignment replaces the entry of its key. -/
theorem entries_assign {table : Table V} {key : Bytes} {old : V}
    (present : table.get key = some old) (value : V) :
    ∃ rest, table.entries.Perm ((key, old) :: rest) ∧
      (table.assign key value).entries.Perm ((key, value) :: rest) := by
  rcases table.roomy.wellFormed.probe_eq key with
    ⟨absent, -⟩ | ⟨index, bound, ⟨occupant, former⟩, held, found, probed⟩
  · rw [get_eq_find, entries, ← table.keys_eq, absent] at present
    cases present
  · have same := (table.roomy.wellFormed.distinct.find_eq_some_iff.mp found).2
    rw [table.keys_eq, same_iff] at same
    change occupant = key at same
    subst same
    rw [get_eq_find, entries, ← table.keys_eq, found] at present
    cases present
    have shape : (table.assign occupant value).entries =
        SlotArray.entries (Function.update table.table.elements index (some (occupant, value)))
          table.capacity := by
      unfold assign
      rw [show probe table.capacity table.table occupant = some (some index) from
        probed _ (Nat.le_refl _)]
      dsimp only
      split
      · next found _ heldAgain =>
          rw [held] at heldAgain
          cases heldAgain
          rfl
      · next free =>
          rw [held] at free
          cases free
    refine ⟨SlotArray.entries (Function.update table.table.elements index none) table.capacity,
      entries_empty bound held, ?_⟩
    rw [shape]
    have emptied : Function.update table.table.elements index none index = none :=
      Function.update_self ..
    have filled := entries_fill bound emptied (occupant, value)
    rwa [Function.update_idem] at filled

theorem find_cons (entries : List (Bytes × V)) (occupant key : Bytes) (value : V) :
    find stringKeys.equality ((occupant, value) :: entries) key =
      if occupant = key then some (occupant, value)
      else find stringKeys.equality entries key := by
  rw [find, List.find?_cons]
  cases same : stringKeys.equality.same occupant key with
  | true => rw [if_pos (same_iff.mp same)]
  | false =>
      have apart : occupant ≠ key := by
        intro equal
        rw [same_iff.mpr equal] at same
        cases same
      rw [if_neg apart]
      rfl

/-- An assignment changes the value of its key. -/
theorem get_assign {table : Table V} {assigned : Bytes} {old : V}
    (present : table.get assigned = some old) (value : V) (key : Bytes) :
    (table.assign assigned value).get key = if assigned = key then some value
      else table.get key := by
  rcases entries_assign present value with ⟨rest, before, after⟩
  rw [get_perm after, get_perm before, find_cons, find_cons]
  split <;> rfl

/-- The names of the entries are different. -/
theorem names_nodup (table : Table V) : (table.entries.map Prod.fst).Nodup := by
  have distinct := table.distinct
  rw [Distinct] at distinct
  rw [List.Nodup, List.pairwise_map]
  apply distinct.imp
  intro left right different same
  rw [same_iff.mpr same] at different
  cases different

theorem mem_names_iff (table : Table V) (name : Bytes) :
    name ∈ table.entries.map Prod.fst ↔ (table.get name).isSome := by
  simp only [List.mem_map, Prod.exists, exists_and_right, exists_eq_right, Option.isSome_iff_exists,
    get_eq_some_iff]

/-- The count is the number of different names that have a value. -/
theorem count_eq_dedup {table : Table V} {names : List Bytes}
    (holds_iff : ∀ name, (table.get name).isSome ↔ name ∈ names) :
    table.count = names.dedup.length := by
  have permutation : (table.entries.map Prod.fst).Perm names.dedup := by
    rw [List.perm_ext_iff_of_nodup table.names_nodup names.nodup_dedup]
    intro name
    rw [mem_names_iff, holds_iff, List.mem_dedup]
  rw [count_eq, ← permutation.length_eq, List.length_map]

/-- Where exactly these names have gone, the count falls by as many as had a value. -/
theorem count_removed {before after : Table V} {names : List Bytes}
    (removed : ∀ name, after.get name = if name ∈ names then none else before.get name) :
    before.count =
      (names.dedup.filter fun name => (before.get name).isSome).length + after.count := by
  have gone : (names.dedup.filter (fun name => (before.get name).isSome) ++
      after.entries.map Prod.fst).Perm (before.entries.map Prod.fst) := by
    rw [List.perm_ext_iff_of_nodup _ before.names_nodup]
    · intro name
      rw [List.mem_append, List.mem_filter, List.mem_dedup, mem_names_iff, mem_names_iff, removed]
      by_cases listed : name ∈ names <;> simp [listed]
    · rw [List.nodup_append]
      refine ⟨names.nodup_dedup.filter _, after.names_nodup, ?_⟩
      rintro name member other left rfl
      have listed : name ∈ names := List.mem_dedup.mp (List.mem_filter.mp member).1
      rw [mem_names_iff, removed, if_pos listed] at left
      cases left
  have length := gone.length_eq
  rw [List.length_append, List.length_map, List.length_map, ← count_eq, ← count_eq] at length
  exact length.symm

theorem count_delete {table : Table V} {key : Bytes} {value : V}
    (held : table.get key = some value) : (table.delete key).1.count + 1 = table.count := by
  have removed : ∀ name, (table.delete key).1.get name =
      if name ∈ [key] then none else table.get name := by
    intro name
    simp [get_delete, eq_comm]
  rw [count_removed removed, (List.nodup_singleton key).dedup]
  simp [held, Nat.add_comm]

theorem count_insert_absent {table : Table V} {key : Bytes} (absent : table.get key = none)
    (value : V) : (table.insert key value).count = table.count + 1 := by
  rw [get_eq_find, Option.map_eq_none_iff] at absent
  have entered := (table.entries_insert key value).length_eq
  rw [insertIfAbsent, absent, List.length_cons] at entered
  rw [count_eq, entered, count_eq]

/-- A table that is not empty has an entry. -/
theorem count_ne_zero_iff (table : Table V) :
    table.count ≠ 0 ↔ ∃ key value, table.get key = some value := by
  rw [count_eq, ← Nat.pos_iff_ne_zero, List.length_pos_iff_exists_mem]
  constructor
  · rintro ⟨⟨key, value⟩, member⟩
    exact ⟨key, value, get_eq_some_iff.mpr member⟩
  · rintro ⟨key, value, held⟩
    exact ⟨(key, value), get_eq_some_iff.mp held⟩

end Table

end TellyDB.Database
