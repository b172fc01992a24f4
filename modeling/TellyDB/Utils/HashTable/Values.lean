import TellyDB.Utils.HashTable.Operations

/-!
Owns tables whose values are read as others. Where an entry lies depends on its key
alone, so every operation does to the table that is read what it does to the table.
-/

namespace TellyDB.Utils.HashTable

open Lib FiniteMap SlotArray RingWalk

variable {K V W : Type} (read : V → W)

/-- The slots with their values read. -/
def mapSlots (slots : Nat → Option (HashTableElement K V)) : Nat → Option (HashTableElement K W) :=
  fun slot => (slots slot).map (Prod.map id read)

/-- The table with its values read. -/
def mapValues (table : HashTable K V) : HashTable K W where
  capacity := table.capacity
  count := table.count
  elements := mapSlots read table.elements
  keys := table.keys

section Slots

variable {read} {keys : KeyFunctions K} {slots : Nat → Option (HashTableElement K V)}

@[simp] theorem freeAt_mapSlots (index : Nat) : freeAt (mapSlots read slots) index =
    freeAt slots index := by
  simp [freeAt, mapSlots]

@[simp] theorem compareAt_mapSlots (key : K) (index : Nat) :
    compareAt keys (mapSlots read slots) key index = compareAt keys slots key index := by
  simp [compareAt, mapSlots, Function.comp_def]

theorem mapSlots_update (index : Nat) (element : HashTableElement K V) :
    mapSlots read (Function.update slots index (some element)) =
      Function.update (mapSlots read slots) index (some (Prod.map id read element)) := by
  funext slot
  by_cases same : slot = index
  · subst same
    simp [mapSlots]
  · simp [mapSlots, same]

end Slots

/-! ## Entries -/

section Entries

variable {read} {table : HashTable K V}

theorem present_mapValues (table : HashTable K V) :
    (table.mapValues read).present = table.present.map (Prod.map id read) := by
  rw [present, present, entries, entries, List.map_filterMap]
  rfl

theorem find_map (equality : KeyEquality K) (entries : List (K × V)) (key : K) :
    find equality (entries.map (Prod.map id read)) key =
      (find equality entries key).map (Prod.map id read) := by
  rw [find, List.find?_map]
  rfl

theorem WellFormed.mapValues (wellFormed : table.WellFormed) :
    (table.mapValues read).WellFormed where
  positive := wellFormed.positive
  probed := by
    intro position bound entry held steps before
    obtain ⟨former, formerHeld, rfl⟩ := Option.map_eq_some_iff.mp held
    intro free
    exact wellFormed.probed position bound former formerHeld steps before
      (Option.map_eq_none_iff.mp free)
  counted := by
    rw [present_mapValues, List.length_map]
    exact wellFormed.counted
  distinct := by
    rw [present_mapValues, Distinct, List.pairwise_map]
    exact wellFormed.distinct

end Entries

/-! ## Operations -/

theorem rehash_mapSlots (fuel : Nat) (keys : KeyFunctions K)
    (old fresh : Nat → Option (HashTableElement K V)) (newCapacity done : Nat) :
    rehash fuel keys (mapSlots read old) newCapacity (mapSlots read fresh) done =
      (rehash fuel keys old newCapacity fresh done).map (mapSlots read) := by
  induction done with
  | zero => rfl
  | succ done inductionHypothesis =>
      rw [rehash, rehash, inductionHypothesis]
      cases rehash fuel keys old newCapacity fresh done with
      | none => rfl
      | some elements =>
          cases held : old done with
          | none => simp [mapSlots, held]
          | some element =>
              have free : freeAt (mapSlots read elements) = freeAt elements :=
                funext fun index => freeAt_mapSlots index
              have home : keys.hash (Prod.map id read element).1 = keys.hash element.1 := rfl
              have moved : mapSlots read old done = some (Prod.map id read element) := by
                rw [mapSlots, held]
                rfl
              simp only [Option.map_some, Option.bind_eq_bind, Option.bind_some, moved, free, home]
              cases walk newCapacity (freeAt elements) fuel (keys.hash element.1 % newCapacity) with
              | none => rfl
              | some index =>
                  simp only [Option.bind_some, Option.map_some, mapSlots_update]

theorem growHashtable_mapValues (fuel : Nat) (fresh : Nat → Option (HashTableElement K V))
    (table : HashTable K V) :
    growHashtable fuel (mapSlots read fresh) (table.mapValues read) =
      (growHashtable fuel fresh table).map (mapValues read) := by
  rw [growHashtable, growHashtable]
  by_cases spare : 4 * table.count < 3 * table.capacity
  · rw [if_pos spare, if_pos (show 4 * (table.mapValues read).count <
      3 * (table.mapValues read).capacity from spare)]
    rfl
  · rw [if_neg spare, if_neg (show ¬ 4 * (table.mapValues read).count <
      3 * (table.mapValues read).capacity from spare)]
    have moved := rehash_mapSlots read fuel table.keys table.elements fresh (2 * table.capacity)
      table.capacity
    simp only [mapValues, moved]
    cases rehash fuel table.keys table.elements (2 * table.capacity) fresh table.capacity <;> rfl

/-- An insertion puts the value that is read where it puts the value. -/
theorem insertIntoHashtable_mapValues (fuel : Nat)
    (fresh : Nat → Option (HashTableElement K V)) (table : HashTable K V) (key : K) (value : V) :
    insertIntoHashtable fuel (mapSlots read fresh) (table.mapValues read) key (read value) =
      (insertIntoHashtable fuel fresh table key value).map
        (Prod.map (mapValues read) (Option.map (Prod.map id read))) := by
  rw [insertIntoHashtable, insertIntoHashtable, growHashtable_mapValues]
  cases growHashtable fuel fresh table with
  | none => rfl
  | some grown =>
      have stops : (fun index => freeAt (grown.mapValues read).elements index ||
          compareAt (grown.mapValues read).keys (grown.mapValues read).elements key index) =
          fun index => freeAt grown.elements index ||
            compareAt grown.keys grown.elements key index := by
        funext index
        simp [mapValues]
      simp only [Option.map_some, Option.bind_eq_bind, Option.bind_some, stops]
      change (walk grown.capacity _ fuel (grown.keys.hash key % grown.capacity)).bind _ =
        Option.map _ ((walk grown.capacity _ fuel (grown.keys.hash key % grown.capacity)).bind _)
      cases walk grown.capacity (fun index => freeAt grown.elements index ||
          compareAt grown.keys grown.elements key index) fuel
            (grown.keys.hash key % grown.capacity) with
      | none => rfl
      | some index =>
          cases held : grown.elements index with
          | some element => simp [mapValues, mapSlots, held]
          | none =>
              simp only [mapValues, mapSlots, held, Option.map_none, Option.map_some, Option.bind_some]
              exact congrArg some (Prod.ext (congrArg (HashTable.mk _ _ · _)
                (mapSlots_update index (key, value)).symm) rfl)

theorem probe_mapValues (fuel : Nat) (table : HashTable K V) (key : K) :
    probe fuel (table.mapValues read) key = probe fuel table key := by
  simp [probe, mapValues]

theorem getFromHashtable_mapValues (fuel : Nat) (table : HashTable K V) (key : K) :
    getFromHashtable fuel (table.mapValues read) key =
      (getFromHashtable fuel table key).map (Option.map (Prod.map id read)) := by
  rw [getFromHashtable, getFromHashtable, probe_mapValues]
  cases probe fuel table key with
  | none => rfl
  | some found => cases found <;> rfl

end TellyDB.Utils.HashTable
