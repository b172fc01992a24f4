import TellyDB.Utils.HashTable.Loading

/-!
Owns what `grow_hashtable` makes of an array with arbitrary contents. The rehash
loop keeps whatever the fresh array holds beside the entries it moves, so the
table is kept exactly when the array comes with every key NULL, as
`create_hashtable` makes it and `grow_hashtable` does not.
-/

namespace TellyDB.Utils.HashTable

open Lib FiniteMap SlotArray RingWalk

variable {K V : Type}

/-- `grown` holds what `table` held and nothing else. -/
structure Keeps (grown table : HashTable K V) : Prop where
  found : ∀ entry ∈ table.present, ∀ fuel, grown.capacity ≤ fuel →
    getFromHashtable fuel grown entry.1 = some (some entry)
  absent : ∀ key, find table.keys.equality table.present key = none → ∀ fuel,
    grown.capacity ≤ fuel → getFromHashtable fuel grown key = some none
  occupied : grown.present.Perm table.present

/-- Growing into the array `fresh` ends, with a table of twice the capacity that holds what the
table held. -/
def Regrows (fresh : Nat → Option (HashTableElement K V)) (table : HashTable K V) : Prop :=
  ∃ turns grown, (∀ fuel, turns ≤ fuel → growHashtable fuel fresh table = some grown) ∧
    grown.capacity = 2 * table.capacity ∧ grown.Keeps table

theorem WellFormed.keeps {grown table : HashTable K V} (grownFormed : grown.WellFormed)
    (wellFormed : table.WellFormed) (keys_eq : grown.keys = table.keys)
    (permutation : grown.present.Perm table.present) : grown.Keeps table where
  found := by
    intro entry member fuel enough
    have held : find table.keys.equality table.present entry.1 = some entry :=
      wellFormed.distinct.find_eq_some_iff.mpr ⟨member, table.keys.equality.refl entry.1⟩
    rw [grownFormed.getFromHashtable_eq entry.1 enough,
      grownFormed.distinct.find_perm permutation, keys_eq, held]
  absent := by
    intro key missing fuel enough
    rw [grownFormed.getFromHashtable_eq key enough,
      grownFormed.distinct.find_perm permutation, keys_eq, missing]
  occupied := permutation

/-- The rehash loop keeps what the fresh array holds: its entries end up beside those moved. -/
theorem rehash_entries {fuel newCapacity : Nat} (positive : 0 < newCapacity)
    (keys : KeyFunctions K) {old fresh : Nat → Option (HashTableElement K V)} {done : Nat}
    {elements : Nat → Option (HashTableElement K V)}
    (moved : rehash fuel keys old newCapacity fresh done = some elements) :
    (entries elements newCapacity).Perm (entries fresh newCapacity ++ entries old done) := by
  induction done generalizing elements with
  | zero =>
      simp only [rehash, Option.some.injEq] at moved
      simp [moved]
  | succ done inductionHypothesis =>
      simp only [rehash, Option.bind_eq_bind, Option.bind_eq_some_iff] at moved
      obtain ⟨before, movedBefore, moved⟩ := moved
      have permutation := inductionHypothesis movedBefore
      cases held : old done with
      | none =>
          simp only [held, Option.some.injEq] at moved
          simpa [entries_succ, held, ← moved] using permutation
      | some element =>
          simp only [held, Option.bind_eq_some_iff, Option.some.injEq] at moved
          obtain ⟨index, walked, rfl⟩ := moved
          have free : before index = none := freeAt_iff.mp (walk_stops walked)
          have bound : index < newCapacity := walk_lt (Nat.mod_lt _ positive) walked
          have filled := entries_fill bound free element
          rw [entries_succ, held, ← List.append_assoc]
          apply filled.trans
          exact (permutation.cons element).trans (List.perm_append_singleton element _).symm

/-- What growing leaves in the slots: the entries of the table, and what the array came with. -/
theorem growHashtable_entries {fuel : Nat} {fresh : Nat → Option (HashTableElement K V)}
    {table grown : HashTable K V} (positive : 0 < table.capacity)
    (grew : growHashtable fuel fresh table = some grown) :
    grown.count = table.count ∧ 0 < grown.capacity ∧
      grown.present.length = table.present.length +
        if 4 * table.count < 3 * table.capacity then 0
        else (entries fresh (2 * table.capacity)).length := by
  rw [growHashtable] at grew
  split at grew
  · next spare =>
      cases grew
      rw [if_pos spare]
      exact ⟨rfl, positive, rfl⟩
  · next full =>
      rw [Option.bind_eq_bind, Option.bind_eq_some_iff] at grew
      obtain ⟨elements, moved, made⟩ := grew
      cases made
      have doubled : 0 < 2 * table.capacity := Nat.mul_pos (by decide) positive
      have beside := (rehash_entries doubled table.keys moved).length_eq
      rw [List.length_append, Nat.add_comm] at beside
      rw [if_neg full]
      exact ⟨rfl, doubled, beside⟩

/-- An insertion counts what it adds, and what an array came with it does not. -/
theorem insertIntoHashtable_uncounted {fuel : Nat} {fresh : Nat → Option (HashTableElement K V)}
    {table after : HashTable K V} {key : K} {value : V}
    {result : Option (HashTableElement K V)} (positive : 0 < table.capacity)
    (inserted : insertIntoHashtable fuel fresh table key value = some (after, result)) :
    0 < after.capacity ∧ after.present.length + table.count =
      after.count + table.present.length +
        if 4 * table.count < 3 * table.capacity then 0
        else (entries fresh (2 * table.capacity)).length := by
  rw [insertIntoHashtable, Option.bind_eq_bind, Option.bind_eq_some_iff] at inserted
  obtain ⟨grown, grew, inserted⟩ := inserted
  rw [Option.bind_eq_bind, Option.bind_eq_some_iff] at inserted
  obtain ⟨index, walked, inserted⟩ := inserted
  obtain ⟨count, grownPositive, slots⟩ := growHashtable_entries positive grew
  have bound : index < grown.capacity := walk_lt (Nat.mod_lt _ grownPositive) walked
  split at inserted
  · cases inserted
    exact ⟨grownPositive, by omega⟩
  · next free =>
      cases inserted
      have filled := (entries_fill bound free (key, value)).length_eq
      rw [List.length_cons] at filled
      refine ⟨grownPositive, ?_⟩
      simp only [present] at slots ⊢
      omega

/-- A table that is kept was grown into an array of free slots. -/
theorem Regrows.clean {table : HashTable K V} (wellFormed : table.WellFormed)
    (full : ¬ 4 * table.count < 3 * table.capacity)
    {fresh : Nat → Option (HashTableElement K V)} (regrows : Regrows fresh table) :
    ∀ slot < 2 * table.capacity, fresh slot = none := by
  obtain ⟨turns, grown, ends, -, keeps⟩ := regrows
  have positive : 0 < 2 * table.capacity := Nat.mul_pos (by decide) wellFormed.positive
  have grew := ends turns (Nat.le_refl _)
  simp only [growHashtable, full, ↓reduceIte, Option.bind_eq_bind, Option.bind_eq_some_iff,
    Option.some.injEq] at grew
  obtain ⟨elements, moved, rfl⟩ := grew
  have beside := (rehash_entries positive table.keys moved).length_eq
  have kept := keeps.occupied.length_eq
  simp only [present, List.length_append] at beside kept
  have nothing : entries fresh (2 * table.capacity) = [] := by
    apply List.eq_nil_of_length_eq_zero
    omega
  intro slot bound
  by_contra filled
  obtain ⟨entry, held⟩ := Option.ne_none_iff_exists'.mp filled
  have member := mem_entries.mpr ⟨slot, bound, held⟩
  simp [nothing] at member

/-- Growth keeps the table exactly when the allocator delivers an array of NULL keys. -/
theorem growth_keeps_iff {table : HashTable K V} (wellFormed : table.WellFormed)
    (full : ¬ 4 * table.count < 3 * table.capacity)
    (fresh : Nat → Option (HashTableElement K V)) :
    Regrows fresh table ↔ ∀ slot < 2 * table.capacity, fresh slot = none := by
  constructor
  · exact Regrows.clean wellFormed full
  · intro clean
    obtain ⟨grown, ends, grownFormed, keys_eq, permutation, -⟩ := wellFormed.grow fun _ => clean
    have capacity : grown.capacity = 2 * table.capacity := by
      obtain ⟨spare, -⟩ | ⟨-, doubled, -⟩ := growHashtable_eq (ends _ (Nat.le_refl _))
      · exact absurd spare full
      · exact doubled
    exact ⟨2 * table.capacity, grown, ends, capacity,
      grownFormed.keeps wellFormed keys_eq permutation⟩

/-- A table of one slot, which is full. -/
def fullTable : HashTable Nat Char where
  capacity := 1
  count := 1
  elements slot := if slot = 0 then some (1, 'a') else none
  keys := parityKeys

theorem fullTable_wellFormed : fullTable.WellFormed where
  positive := Nat.zero_lt_one
  probed := by
    intro position bound entry held steps before
    obtain rfl : position = 0 := Nat.lt_one_iff.mp bound
    simp [Circular.offset, fullTable, home, Nat.mod_one] at before
  counted := rfl
  distinct := by simp [Distinct, present, entries, fullTable]

theorem growth_keeps_clean : Regrows (fun _ => none) fullTable :=
  (growth_keeps_iff fullTable_wellFormed (by decide) _).mpr fun _ _ => rfl

/-- Whatever lies in the fresh array stays in the table. -/
theorem growth_fails_on_garbage : fullTable.WellFormed ∧
    ¬ 4 * fullTable.count < 3 * fullTable.capacity ∧
    ¬ ∀ fresh, Regrows fresh fullTable := by
  refine ⟨fullTable_wellFormed, by decide, ?_⟩
  intro always
  have clean := (always fun _ => some (7, 'z')).clean fullTable_wellFormed (by decide) 0 (by decide)
  cases clean

end TellyDB.Utils.HashTable
