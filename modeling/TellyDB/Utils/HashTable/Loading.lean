import TellyDB.Utils.HashTable.Refinement

/-!
Owns how full a table can get, and what inserting the entries of one table into
a new one gives: where the new one has the capacity of the old one, it does not
grow.
-/

namespace TellyDB.Utils.HashTable

open Lib FiniteMap SlotArray

variable {K V : Type}

/-- A table that some use of it has made: calls, and assignments to the value of an entry. -/
inductive Reachable (keys : KeyFunctions K) : HashTable K V → Prop where
  | create {capacity : Nat} (positive : 1 ≤ capacity) :
      Reachable keys (createHashtable capacity keys)
  | call {table after : HashTable K V} {operation : Operation K V} {outcome : Outcome K V}
      {turns : Nat} (reachable : Reachable keys table)
      (ends : ∀ fuel, turns ≤ fuel → run fuel table operation = some (after, outcome)) :
      Reachable keys after
  | assign {table : HashTable K V} {index : Nat} {key : K} {old : V} (value : V)
      (reachable : Reachable keys table) (held : table.elements index = some (key, old)) :
      Reachable keys { table with
        elements := Function.update table.elements index (some (key, value)) }

/-- A table between calls: well-formed, and not fuller than one insertion leaves it. -/
structure Roomy (table : HashTable K V) : Prop where
  wellFormed : table.WellFormed
  room : 4 * table.count < 3 * table.capacity + 4

/-! ## Growth -/

theorem growHashtable_eq {fuel : Nat} {fresh : Nat → Option (HashTableElement K V)}
    {table grown : HashTable K V} (grew : growHashtable fuel fresh table = some grown) :
    (4 * table.count < 3 * table.capacity ∧ grown = table) ∨
      (3 * table.capacity ≤ 4 * table.count ∧ grown.capacity = 2 * table.capacity ∧
        grown.count = table.count) := by
  rw [growHashtable] at grew
  split at grew
  · next spare =>
      cases grew
      exact Or.inl ⟨spare, rfl⟩
  · next full =>
      rw [Option.bind_eq_bind, Option.bind_eq_some_iff] at grew
      rcases grew with ⟨elements, -, made⟩
      cases made
      exact Or.inr ⟨Nat.le_of_not_lt full, rfl, rfl⟩

theorem insertIntoHashtable_size {fuel : Nat} {fresh : Nat → Option (HashTableElement K V)}
    {table after : HashTable K V} {key : K} {value : V}
    {result : Option (HashTableElement K V)}
    (inserted : insertIntoHashtable fuel fresh table key value = some (after, result)) :
    ∃ grown, growHashtable fuel fresh table = some grown ∧ after.capacity = grown.capacity ∧
      (after.count = grown.count ∨ after.count = grown.count + 1) := by
  rw [insertIntoHashtable, Option.bind_eq_bind, Option.bind_eq_some_iff] at inserted
  rcases inserted with ⟨grown, grew, inserted⟩
  rw [Option.bind_eq_bind, Option.bind_eq_some_iff] at inserted
  rcases inserted with ⟨index, -, inserted⟩
  refine ⟨grown, grew, ?_⟩
  split at inserted
  · cases inserted
    exact ⟨rfl, Or.inl rfl⟩
  · cases inserted
    exact ⟨rfl, Or.inr rfl⟩

/-- A table at its load limit doubles its capacity. -/
theorem insertIntoHashtable_grown {fuel : Nat} {fresh : Nat → Option (HashTableElement K V)}
    {table after : HashTable K V} {key : K} {value : V}
    {result : Option (HashTableElement K V)}
    (inserted : insertIntoHashtable fuel fresh table key value = some (after, result)) :
    after.capacity =
      if 4 * table.count < 3 * table.capacity then table.capacity else 2 * table.capacity := by
  rcases insertIntoHashtable_size inserted with ⟨grown, grew, capacity, -⟩
  rcases growHashtable_eq grew with ⟨spare, rfl⟩ | ⟨full, doubled, -⟩
  · rw [if_pos spare, capacity]
  · rw [if_neg (Nat.not_lt.mpr full), capacity, doubled]

/-- A table with room keeps its capacity. -/
theorem insertIntoHashtable_capacity {fuel : Nat} {fresh : Nat → Option (HashTableElement K V)}
    {table after : HashTable K V} {key : K} {value : V}
    {result : Option (HashTableElement K V)}
    (inserted : insertIntoHashtable fuel fresh table key value = some (after, result))
    (spare : 4 * table.count < 3 * table.capacity) : after.capacity = table.capacity := by
  rw [insertIntoHashtable_grown inserted, if_pos spare]

theorem insertIntoHashtable_room {fuel : Nat} {fresh : Nat → Option (HashTableElement K V)}
    {table after : HashTable K V} {key : K} {value : V}
    {result : Option (HashTableElement K V)}
    (inserted : insertIntoHashtable fuel fresh table key value = some (after, result))
    (positive : 1 ≤ table.capacity) (room : 4 * table.count < 3 * table.capacity + 4) :
    4 * after.count < 3 * after.capacity + 4 := by
  rcases insertIntoHashtable_size inserted with ⟨grown, grew, capacity, count⟩
  rcases growHashtable_eq grew with ⟨spare, rfl⟩ | ⟨-, doubled, kept⟩
  · rcases count with count | count <;> omega
  · have doubling : 4 * table.count < 2 * (3 * table.capacity) := by
      rcases Nat.lt_or_ge table.capacity 2 with single | more <;> omega
    rcases count with count | count <;> omega

/-- What a call does to the size of the table. -/
theorem run_room {fuel : Nat} {table after : HashTable K V} {operation : Operation K V}
    {outcome : Outcome K V} (ran : run fuel table operation = some (after, outcome))
    (positive : 1 ≤ table.capacity) (room : 4 * table.count < 3 * table.capacity + 4) :
    4 * after.count < 3 * after.capacity + 4 := by
  cases operation with
  | insert key value =>
      rw [run, Option.map_eq_some_iff] at ran
      rcases ran with ⟨⟨result, element⟩, inserted, same⟩
      cases same
      exact insertIntoHashtable_room inserted positive room
  | delete key =>
      rw [run, Option.map_eq_some_iff] at ran
      rcases ran with ⟨⟨result, deleted⟩, removed, same⟩
      cases same
      show 4 * result.count < 3 * result.capacity + 4
      rw [deleteFromHashtable, Option.bind_eq_bind, Option.bind_eq_some_iff] at removed
      rcases removed with ⟨found, -, removed⟩
      cases found with
      | none =>
          cases removed
          exact room
      | some deletion =>
          dsimp only at removed
          rw [Option.bind_eq_bind, Option.bind_eq_some_iff] at removed
          rcases removed with ⟨elements, -, made⟩
          cases made
          show 4 * (table.count - 1) < 3 * table.capacity + 4
          omega
  | get key =>
      rw [run, Option.map_eq_some_iff] at ran
      rcases ran with ⟨result, -, same⟩
      cases same
      exact room
  | exist key =>
      rw [run, Option.map_eq_some_iff] at ran
      rcases ran with ⟨result, -, same⟩
      cases same
      exact room
  | clear destroyElement =>
      rw [run] at ran
      cases ran
      cases destroyElement <;> exact Nat.succ_pos _

/-! ## Assignments -/

/-- The keys of the entries are all that the places of the entries depend on. -/
theorem WellFormed.assign {table : HashTable K V} (wellFormed : table.WellFormed) {index : Nat}
    {key : K} {old value : V} (held : table.elements index = some (key, old)) :
    ({ table with
      elements := Function.update table.elements index (some (key, value)) } :
        HashTable K V).WellFormed := by
  have free_iff : ∀ position,
      Function.update table.elements index (some (key, value)) position ≠ none ↔
        table.elements position ≠ none := by
    intro position
    by_cases same : position = index
    · rw [same, Function.update_self, held]
      simp
    · rw [Function.update_of_ne same]
  have keys_eq : (entries (Function.update table.elements index (some (key, value)))
      table.capacity).map Prod.fst = table.present.map Prod.fst := by
    rw [present, entries, entries, List.map_filterMap, List.map_filterMap]
    apply List.filterMap_congr
    intro position _
    by_cases same : position = index
    · rw [same, Function.update_self, held]
      rfl
    · rw [Function.update_of_ne same]
  refine ⟨wellFormed.positive, ?_, ?_, ?_⟩
  · intro position bound entry entryHeld steps before
    rw [free_iff]
    by_cases same : position = index
    · rw [same] at entryHeld bound before
      dsimp only at entryHeld
      rw [Function.update_self] at entryHeld
      cases entryHeld
      exact wellFormed.probed index bound (key, old) held steps before
    · dsimp only at entryHeld
      rw [Function.update_of_ne same] at entryHeld
      exact wellFormed.probed position bound entry entryHeld steps before
  · have length := congrArg List.length keys_eq
    rw [List.length_map, List.length_map] at length
    exact wellFormed.counted.trans length.symm
  · have distinct := wellFormed.distinct
    rw [Distinct, ← List.pairwise_map (f := Prod.fst)
      (R := fun left right => table.keys.equality.same left right = false)] at distinct ⊢
    rw [present, keys_eq]
    exact distinct

theorem Reachable.roomy {keys : KeyFunctions K} {table : HashTable K V}
    (reachable : Reachable keys table) : table.Roomy := by
  induction reachable with
  | create positive => exact ⟨wellFormed_create positive keys, by simp [createHashtable]⟩
  | call reachable ends inductionHypothesis =>
      rename_i table after operation outcome turns
      obtain ⟨enough, reached, spec, wellFormed, -, -⟩ :=
        run_refines inductionHypothesis.wellFormed (List.Perm.refl _) operation
      have ran := ends (max turns enough) (Nat.le_max_left _ _)
      have same := spec (max turns enough) (Nat.le_max_right _ _)
      rw [ran] at same
      cases same
      exact ⟨wellFormed, run_room ran inductionHypothesis.wellFormed.positive
        inductionHypothesis.room⟩
  | assign value reachable held inductionHypothesis =>
      exact ⟨inductionHypothesis.wellFormed.assign held, inductionHypothesis.room⟩

theorem Reachable.keys_eq {keys : KeyFunctions K} {table : HashTable K V}
    (reachable : Reachable keys table) : table.keys = keys := by
  induction reachable with
  | create positive => rfl
  | call reachable ends inductionHypothesis =>
      rename_i table after operation outcome turns
      obtain ⟨enough, reached, spec, -, sameKeys, -⟩ :=
        run_refines reachable.roomy.wellFormed (List.Perm.refl _) operation
      have ran := ends (max turns enough) (Nat.le_max_left _ _)
      have same := spec (max turns enough) (Nat.le_max_right _ _)
      rw [ran] at same
      cases same
      exact sameKeys.trans inductionHypothesis
  | assign value reachable held inductionHypothesis => exact inductionHypothesis

/-! ## Loading -/

/-- Inserting an entry whose key is absent. -/
theorem WellFormed.insert_absent {table : HashTable K V} (wellFormed : table.WellFormed)
    {key : K} (absent : find table.keys.equality table.present key = none) (value : V) :
    ∃ after result, insertIntoHashtable (2 * table.capacity) (fun _ => none) table key value =
        some (after, result) ∧
      after.WellFormed ∧ after.keys = table.keys ∧
      after.present.Perm ((key, value) :: table.present) ∧
      (4 * table.count < 3 * table.capacity → after.capacity = table.capacity) := by
  obtain ⟨after, inserted, afterWellFormed, sameKeys, entered⟩ :=
    wellFormed.insertIntoHashtable_spec key value
  have ran := inserted (2 * table.capacity) (Nat.le_refl _)
  refine ⟨after, _, ran, afterWellFormed, sameKeys, ?_, insertIntoHashtable_capacity ran⟩
  rwa [insertIfAbsent, absent] at entered

/-- Two tables hold the same entries under the same keys, in as many slots. -/
structure Same (loaded table : HashTable K V) : Prop where
  capacity_eq : loaded.capacity = table.capacity
  count_eq : loaded.count = table.count
  present : loaded.present.Perm table.present
  get_eq : ∀ {fuel : Nat}, table.capacity ≤ fuel → ∀ key : K,
    loaded.getFromHashtable fuel key = table.getFromHashtable fuel key

theorem WellFormed.same {loaded table : HashTable K V} (loadedFormed : loaded.WellFormed)
    (wellFormed : table.WellFormed) (keys_eq : loaded.keys = table.keys)
    (capacity_eq : loaded.capacity = table.capacity)
    (permutation : loaded.present.Perm table.present) : loaded.Same table where
  capacity_eq := capacity_eq
  count_eq := by
    rw [loadedFormed.counted, wellFormed.counted]
    exact permutation.length_eq
  present := permutation
  get_eq := by
    intro fuel enough key
    rw [loadedFormed.getFromHashtable_eq key (by rw [capacity_eq]; exact enough),
      wellFormed.getFromHashtable_eq key enough,
      loadedFormed.distinct.find_perm permutation key, keys_eq]

end TellyDB.Utils.HashTable
