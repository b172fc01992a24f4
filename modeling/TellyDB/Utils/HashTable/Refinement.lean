import Mathlib.Data.List.Range
import TellyDB.Utils.HashTable.Operations

/-!
Owns the refinement of finite maps by the hash table: over every sequence of
operations on a table made by `create_hashtable`, all loops end, the outcomes
are those of a finite map with insertion of absent keys, and the table holds
exactly the entries of that map.
-/

namespace TellyDB.Utils.HashTable

open Lib FiniteMap SlotArray

variable {K V : Type}

/-- The calls a user of the table makes. -/
inductive Operation (K V : Type) where
  | insert (key : K) (value : V)
  | delete (key : K)
  | get (key : K)
  | exist (key : K)
  | clear (destroyElement : Bool)

/-- What a call returns. -/
inductive Outcome (K V : Type) where
  | element (result : Option (HashTableElement K V))
  | answer (result : Bool)
  | done

/-- One call on the table. Allocations succeed and deliver zero-filled arrays. -/
def run (fuel : Nat) (table : HashTable K V) :
    Operation K V → Option (HashTable K V × Outcome K V)
  | .insert key value =>
      (insertIntoHashtable fuel (fun _ => none) table key value).map
        (Prod.map id Outcome.element)
  | .delete key => (deleteFromHashtable fuel table key).map (Prod.map id Outcome.answer)
  | .get key => (getFromHashtable fuel table key).map fun result => (table, .element result)
  | .exist key => (existInHashtable fuel table key).map fun result => (table, .answer result)
  | .clear destroyElement => some ((clearHashtable table destroyElement).1, .done)

/-- A sequence of calls, with the outcomes in order. -/
def runAll (fuel : Nat) :
    HashTable K V → List (Operation K V) → Option (HashTable K V × List (Outcome K V))
  | table, [] => some (table, [])
  | table, operation :: rest => do
      let (table, outcome) ← run fuel table operation
      let (table, outcomes) ← runAll fuel table rest
      some (table, outcome :: outcomes)

/-- The same call on a finite map. -/
def specify (equality : KeyEquality K) (map : List (HashTableElement K V)) :
    Operation K V → List (HashTableElement K V) × Outcome K V
  | .insert key value =>
      let map := insertIfAbsent equality map key value
      (map, .element (find equality map key))
  | .delete key => (erase equality map key, .answer (find equality map key).isSome)
  | .get key => (map, .element (find equality map key))
  | .exist key => (map, .answer (find equality map key).isSome)
  | .clear _ => ([], .done)

/-- The same sequence of calls on a finite map. -/
def specifyAll (equality : KeyEquality K) :
    List (HashTableElement K V) → List (Operation K V) →
      List (HashTableElement K V) × List (Outcome K V)
  | map, [] => (map, [])
  | map, operation :: rest =>
      let (map, outcome) := specify equality map operation
      let (map, outcomes) := specifyAll equality map rest
      (map, outcome :: outcomes)

/-- The table holds exactly the entries of `map`: its keys are pairwise
different, `size.count` counts them and the occupied slots, and
`foreach_hashtable` visits each of them once. -/
structure Represents (table : HashTable K V) (map : List (HashTableElement K V)) : Prop where
  present : table.present.Perm map
  distinct : Distinct table.keys.equality map
  count_entries : table.count = map.length
  count_occupied : table.count =
    (List.range table.capacity).countP fun index => (table.elements index).isSome
  foreach : ∀ {σ : Type} (procedure : HashTableElement K V → σ → σ) (external : σ),
    ∃ visited : List (HashTableElement K V), visited.Perm map ∧
      foreachHashtable table procedure external =
        visited.foldl (fun external element => procedure element external) external

/-- `foreach_hashtable` folds over the present entries in slot order. -/
theorem foreachHashtable_eq {σ : Type} (table : HashTable K V)
    (procedure : HashTableElement K V → σ → σ) (external : σ) :
    foreachHashtable table procedure external =
      table.present.foldl (fun external element => procedure element external) external := by
  unfold foreachHashtable present entries
  generalize List.range table.capacity = indices
  induction indices generalizing external with
  | nil => rfl
  | cons index rest inductionHypothesis =>
      cases held : table.elements index <;>
        simp [held, inductionHypothesis]

theorem WellFormed.represents {table : HashTable K V} (wellFormed : table.WellFormed)
    {map : List (HashTableElement K V)} (permutation : table.present.Perm map) :
    table.Represents map where
  present := permutation
  distinct := wellFormed.distinct.perm permutation
  count_entries := wellFormed.counted.trans permutation.length_eq
  count_occupied := by
    rw [wellFormed.counted, HashTable.present, entries, List.length_filterMap_eq_countP]
  foreach := fun procedure external =>
    ⟨table.present, permutation, foreachHashtable_eq table procedure external⟩

theorem WellFormed.clear {table : HashTable K V} (wellFormed : table.WellFormed)
    (destroyElement : Bool) :
    (clearHashtable table destroyElement).1.WellFormed ∧
      (clearHashtable table destroyElement).1.keys = table.keys ∧
      (clearHashtable table destroyElement).1.present = [] := by
  have emptied : entries (fun index => if index < table.capacity then none
      else table.elements index) table.capacity = [] := by
    have none_left : entries (fun index => if index < table.capacity then none
        else table.elements index) table.capacity = entries (fun _ => none) table.capacity :=
      entries_congr fun index bound => by simp [bound]
    rw [none_left, entries_free]
  have shape : ∀ destroy, (clearHashtable table destroy).1 = { table with
      count := 0
      elements := fun index => if index < table.capacity then none
        else table.elements index } := by
    intro destroy
    cases destroy <;> rfl
  rw [shape]
  refine ⟨⟨wellFormed.positive, ?_, ?_, ?_⟩, rfl, emptied⟩
  · intro position bound element held
    simp [bound] at held
  · simp [HashTable.present, emptied]
  · simp [HashTable.present, emptied, Distinct]

/-- With a destructor, `clear_hashtable` destroys each present entry once. -/
theorem clearHashtable_destroys (table : HashTable K V) :
    (clearHashtable table true).2 = table.present := by
  have collect : ∀ (entries destroyed : List (HashTableElement K V)),
      entries.foldl (fun destroyed element => destroyed ++ [element]) destroyed =
        destroyed ++ entries := by
    intro entries
    induction entries with
    | nil => simp
    | cons element rest inductionHypothesis =>
        intro destroyed
        simp [inductionHypothesis]
  simp [clearHashtable, foreachHashtable_eq, collect]

/-- One call refines one call of the finite map. -/
theorem run_refines {table : HashTable K V} (wellFormed : table.WellFormed)
    {map : List (HashTableElement K V)} (permutation : table.present.Perm map)
    (operation : Operation K V) :
    ∃ turns after, (∀ fuel, turns ≤ fuel → run fuel table operation =
        some (after, (specify table.keys.equality map operation).2)) ∧
      after.WellFormed ∧ after.keys = table.keys ∧
      after.present.Perm (specify table.keys.equality map operation).1 := by
  have sameFind := wellFormed.distinct.find_perm permutation
  cases operation with
  | insert key value =>
      have inserted : (insertIfAbsent table.keys.equality table.present key value).Perm
          (insertIfAbsent table.keys.equality map key value) := by
        unfold insertIfAbsent
        rw [sameFind]
        split
        · exact permutation
        · exact permutation.cons _
      have result := (wellFormed.distinct.insertIfAbsent key value).find_perm inserted key
      obtain ⟨after, ends, afterWellFormed, sameKeys, entered⟩ :=
        wellFormed.insertIntoHashtable_spec key value
      refine ⟨2 * table.capacity, after, ?_, afterWellFormed, sameKeys,
        entered.trans inserted⟩
      intro fuel enough
      simp [run, ends fuel enough, specify, result]
  | delete key =>
      obtain ⟨after, ends, afterWellFormed, sameKeys, removed⟩ :=
        wellFormed.deleteFromHashtable_spec key
      refine ⟨deletionTurns table.capacity, after, ?_, afterWellFormed, sameKeys,
        removed.trans (erase_perm table.keys.equality permutation key)⟩
      intro fuel enough
      simp [run, ends fuel enough, specify, sameFind]
  | get key =>
      refine ⟨table.capacity, table, ?_, wellFormed, rfl, permutation⟩
      intro fuel enough
      simp [run, wellFormed.getFromHashtable_eq key enough, specify, sameFind]
  | exist key =>
      refine ⟨table.capacity, table, ?_, wellFormed, rfl, permutation⟩
      intro fuel enough
      simp [run, wellFormed.existInHashtable_eq key enough, specify, sameFind]
  | clear destroyElement =>
      obtain ⟨cleared, sameKeys, empty⟩ := wellFormed.clear destroyElement
      refine ⟨0, _, fun _ _ => rfl, cleared, sameKeys, ?_⟩
      simp [specify, empty]

/-- A sequence of calls refines the same sequence on the finite map. -/
theorem runAll_refines {table : HashTable K V} (wellFormed : table.WellFormed)
    {map : List (HashTableElement K V)} (permutation : table.present.Perm map)
    (operations : List (Operation K V)) :
    ∃ turns after, (∀ fuel, turns ≤ fuel → runAll fuel table operations =
        some (after, (specifyAll table.keys.equality map operations).2)) ∧
      after.WellFormed ∧
      after.present.Perm (specifyAll table.keys.equality map operations).1 := by
  induction operations generalizing table map with
  | nil => exact ⟨0, table, fun _ _ => rfl, wellFormed, permutation⟩
  | cons operation rest inductionHypothesis =>
      obtain ⟨first, middle, ran, middleWellFormed, sameKeys, middlePermutation⟩ :=
        run_refines wellFormed permutation operation
      obtain ⟨later, after, ranRest, afterWellFormed, afterPermutation⟩ :=
        inductionHypothesis middleWellFormed middlePermutation
      rw [sameKeys] at ranRest afterPermutation
      refine ⟨max first later, after, ?_, afterWellFormed, afterPermutation⟩
      intro fuel enough
      simp [runAll, ran fuel (by omega), ranRest fuel (by omega), specifyAll]

/-! ## What the finite map holds -/

/-- The value a history of calls leaves under `key`: that of the first
insertion since the key was last absent. -/
def valueAfter (equality : KeyEquality K) (key : K) :
    Option V → List (Operation K V) → Option V
  | current, [] => current
  | current, .insert inserted value :: rest =>
      valueAfter equality key
        (if equality.same inserted key then current.or (some value) else current) rest
  | current, .delete deleted :: rest =>
      valueAfter equality key (if equality.same deleted key then none else current) rest
  | current, .get _ :: rest => valueAfter equality key current rest
  | current, .exist _ :: rest => valueAfter equality key current rest
  | _, .clear _ :: rest => valueAfter equality key none rest

theorem find_insertIfAbsent (equality : KeyEquality K) (map : List (HashTableElement K V))
    (inserted key : K) (value : V) :
    (find equality (insertIfAbsent equality map inserted value) key).map Prod.snd =
      if equality.same inserted key then
        ((find equality map key).map Prod.snd).or (some value)
      else (find equality map key).map Prod.snd := by
  cases same : equality.same inserted key with
  | false =>
      unfold insertIfAbsent
      split
      · rfl
      · simp [find, same]
  | true =>
      have sameFind : find equality map inserted = find equality map key := by
        unfold find
        congr 1
        funext entry
        rw [Bool.eq_iff_iff]
        exact ⟨fun equal => equality.trans equal same,
          fun equal => equality.trans equal (equality.symm same)⟩
      unfold insertIfAbsent
      split
      · rename_i element found
        rw [sameFind] at found
        simp [found]
      · rename_i absent
        rw [sameFind] at absent
        rw [absent]
        simp [find, same]

theorem find_erase (equality : KeyEquality K) (map : List (HashTableElement K V))
    (deleted key : K) :
    find equality (erase equality map deleted) key =
      if equality.same deleted key then none else find equality map key := by
  cases same : equality.same deleted key with
  | true =>
      rw [if_pos rfl, find_eq_none_iff]
      intro entry member
      have kept := (List.mem_filter.mp member).2
      by_contra hit
      rw [Bool.not_eq_false] at hit
      simp [equality.trans hit (equality.symm same)] at kept
  | false =>
      unfold find erase
      rw [List.find?_filter]
      congr 1
      funext entry
      cases hit : equality.same entry.1 key with
      | false => simp
      | true =>
          have other : equality.same entry.1 deleted = false := by
            by_contra equal
            rw [Bool.not_eq_false] at equal
            rw [equality.trans (equality.symm equal) hit] at same
            cases same
          simp [other]

/-- After a history the finite map holds under every key what the history
leaves there. -/
theorem find_specifyAll (equality : KeyEquality K) (operations : List (Operation K V))
    (map : List (HashTableElement K V)) (key : K) :
    (find equality (specifyAll equality map operations).1 key).map Prod.snd =
      valueAfter equality key ((find equality map key).map Prod.snd) operations := by
  induction operations generalizing map with
  | nil => rfl
  | cons operation rest inductionHypothesis =>
      simp only [specifyAll, inductionHypothesis]
      cases operation with
      | insert inserted value => simp only [specify, valueAfter, find_insertIfAbsent]
      | delete deleted =>
          simp only [specify, valueAfter, find_erase]
          cases equality.same deleted key <;> simp
      | get _ => rfl
      | exist _ => rfl
      | clear _ => rfl

/-! ## Refinement -/

/-- The hash table refines a finite map with insertion of absent keys. -/
theorem hashTable_refines_finiteMap {capacity : Nat} (positive : 1 ≤ capacity)
    (keys : KeyFunctions K) (operations : List (Operation K V)) :
    ∃ turns table, (∀ fuel, turns ≤ fuel →
        runAll fuel (createHashtable capacity keys) operations =
          some (table, (specifyAll keys.equality [] operations).2)) ∧
      table.Represents (specifyAll keys.equality [] operations).1 ∧
      ∀ key, (find keys.equality (specifyAll keys.equality [] operations).1 key).map Prod.snd =
        valueAfter keys.equality key none operations := by
  have created := wellFormed_create (V := V) positive keys
  obtain ⟨turns, table, ran, wellFormed, permutation⟩ :=
    runAll_refines created (by simp [present, createHashtable] : List.Perm _ []) operations
  exact ⟨turns, table, ran, wellFormed.represents permutation,
    fun key => find_specifyAll keys.equality operations [] key⟩

/-- Natural keys hashed to their parity, so that half of them collide. -/
def parityKeys : KeyFunctions Nat where
  hash key := key % 2
  keyCompare left right := left == some right
  compare_null := fun _ => rfl
  compare_self := fun key => by simp
  compare_symm := fun same => by
    rw [beq_iff_eq, Option.some.injEq] at same ⊢
    exact same.symm
  compare_trans := fun first second => by
    rw [beq_iff_eq, Option.some.injEq] at first second ⊢
    exact first.trans second
  hash_eq := fun same => by
    rw [beq_iff_eq, Option.some.injEq] at same
    rw [same]

/-- A table of capacity one through two growths and a backward shift. -/
theorem hashTable_refines_finiteMap_parity :
    ∃ turns table, (∀ fuel, turns ≤ fuel →
        runAll fuel (createHashtable 1 parityKeys)
            [.insert 1 'a', .insert 3 'b', .insert 5 'c', .delete 1, .get 5] =
          some (table, [.element (some (1, 'a')), .element (some (3, 'b')),
            .element (some (5, 'c')), .answer true, .element (some (5, 'c'))])) ∧
      table.Represents [(5, 'c'), (3, 'b')] ∧
      ∀ key, (find parityKeys.equality [(5, 'c'), (3, 'b')] key).map Prod.snd =
        valueAfter parityKeys.equality key none
          [.insert 1 'a', .insert 3 'b', .insert 5 'c', .delete 1, .get 5] :=
  hashTable_refines_finiteMap (by decide) parityKeys
    [.insert 1 'a', .insert 3 'b', .insert 5 'c', .delete 1, .get 5]

end TellyDB.Utils.HashTable
