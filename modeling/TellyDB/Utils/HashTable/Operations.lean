import TellyDB.Utils.HashTable

/-!
Owns the specification of each hash table operation on a well-formed table:
every loop ends within the fuel named here, and the entries change exactly as
those of a finite map do.
-/

namespace TellyDB.Utils

open Lib Circular RingWalk LinearProbing SlotArray FiniteMap

variable {K V : Type}

namespace KeyFunctions

/-- The equality of keys that `key_compare` decides. -/
def equality (keys : KeyFunctions K) : KeyEquality K where
  same left right := keys.keyCompare (some left) right
  refl := keys.compare_self
  symm := keys.compare_symm
  trans := keys.compare_trans

end KeyFunctions

namespace HashTable

/-- The present entries, in slot order. -/
def present (table : HashTable K V) : List (HashTableElement K V) :=
  entries table.elements table.capacity

/-- The invariant of a table between operations. -/
structure WellFormed (table : HashTable K V) : Prop where
  positive : 0 < table.capacity
  probed : Probed table.capacity (home table.keys table.capacity) table.elements
  counted : table.count = table.present.length
  distinct : Distinct table.keys.equality table.present

theorem home_lt {capacity : Nat} (positive : 0 < capacity) (keys : KeyFunctions K)
    (element : HashTableElement K V) : home keys capacity element < capacity :=
  Nat.mod_lt _ positive

@[simp] theorem compareAt_some {keys : KeyFunctions K}
    {elements : Nat → Option (HashTableElement K V)} {index : Nat}
    {element : HashTableElement K V} (held : elements index = some element) (key : K) :
    compareAt keys elements key index = keys.equality.same element.1 key := by
  simp [compareAt, held, KeyFunctions.equality]

@[simp] theorem compareAt_none (keys : KeyFunctions K)
    {elements : Nat → Option (HashTableElement K V)} {index : Nat}
    (free : elements index = none) (key : K) : compareAt keys elements key index = false := by
  simp [compareAt, free, keys.compare_null]

theorem freeAt_iff {elements : Nat → Option (HashTableElement K V)} {index : Nat} :
    freeAt elements index = true ↔ elements index = none := by
  simp [freeAt]

theorem wellFormed_create {capacity : Nat} (positive : 0 < capacity) (keys : KeyFunctions K) :
    WellFormed (createHashtable capacity keys : HashTable K V) where
  positive := positive
  probed := probed_free capacity _
  counted := by simp [createHashtable, present]
  distinct := by simp [createHashtable, present, Distinct]

/-! ## Probing -/

/-- A probe that passes occupied slots with other keys only has not passed the
key it looks for. -/
theorem WellFormed.absent_before {table : HashTable K V} (wellFormed : table.WellFormed)
    {key : K} {steps : Nat}
    (free : table.elements (place table.capacity
      (table.keys.hash key % table.capacity) steps) = none)
    (others : ∀ earlier < steps, compareAt table.keys table.elements key
      (place table.capacity (table.keys.hash key % table.capacity) earlier) = false) :
    find table.keys.equality table.present key = none := by
  rw [find_eq_none_iff]
  intro entry member
  obtain ⟨position, positionBound, held⟩ := mem_entries.mp member
  by_contra hit
  rw [Bool.not_eq_false] at hit
  have sameHome : home table.keys table.capacity entry =
      table.keys.hash key % table.capacity := by
    rw [home, table.keys.hash_eq hit]
  have startBound := Nat.mod_lt (table.keys.hash key) wellFormed.positive
  have path := wellFormed.probed position positionBound entry held
  have reached := place_offset startBound positionBound
  rw [ClearPath, sameHome] at path
  rcases Nat.lt_trichotomy
      (offset table.capacity (table.keys.hash key % table.capacity) position) steps with
    before | at_free | beyond
  · have missed := others _ before
    rw [reached, compareAt_some held, hit] at missed
    cases missed
  · rw [← at_free, reached, held] at free
    cases free
  · exact path steps beyond free

/-- The probe of the lookups finds a key's slot, and no slot for an absent
key, within `capacity` turns. -/
theorem WellFormed.probe_eq {table : HashTable K V} (wellFormed : table.WellFormed) (key : K) :
    (find table.keys.equality table.present key = none ∧
      ∀ fuel, table.capacity ≤ fuel → probe fuel table key = some none) ∨
    ∃ index < table.capacity, ∃ element, table.elements index = some element ∧
      find table.keys.equality table.present key = some element ∧
      ∀ fuel, table.capacity ≤ fuel → probe fuel table key = some (some index) := by
  have startBound := Nat.mod_lt (table.keys.hash key) wellFormed.positive
  set start := table.keys.hash key % table.capacity with start_def
  let stops : Nat → Bool := fun index =>
    compareAt table.keys table.elements key index || freeAt table.elements index
  by_cases stop : ∃ steps < table.capacity, stops (place table.capacity start steps) = true
  · obtain ⟨reached, reachedBound, stopped⟩ := stop
    obtain ⟨steps, within, first⟩ := exists_firstStop stopped
    have bound : steps < table.capacity := by omega
    have walked := fun fuel (enough : table.capacity ≤ fuel) =>
      walkOnce_eq_some startBound bound first (by omega : steps < fuel)
    have indexBound := place_lt wellFormed.positive start steps
    cases held : table.elements (place table.capacity start steps) with
    | none =>
        left
        refine ⟨wellFormed.absent_before held ?_, ?_⟩
        · intro earlier below
          have passed := first.2 earlier below
          simp only [stops, Bool.or_eq_false_iff] at passed
          exact passed.1
        · intro fuel enough
          have differs := compareAt_none table.keys held key
          simp only [probe, ← start_def]
          rw [walked fuel enough]
          simp [differs]
    | some element =>
        right
        have hit : compareAt table.keys table.elements key
            (place table.capacity start steps) = true := by
          have stopped := first.1
          simpa [stops, freeAt, held] using stopped
        refine ⟨_, indexBound, element, held, ?_, ?_⟩
        · rw [wellFormed.distinct.find_eq_some_iff]
          rw [compareAt_some held] at hit
          exact ⟨mem_entries.mpr ⟨_, indexBound, held⟩, hit⟩
        · intro fuel enough
          simp only [probe, ← start_def]
          rw [walked fuel enough]
          simp [hit]
  · left
    have never : ∀ steps < table.capacity, stops (place table.capacity start steps) = false := by
      intro steps bound
      by_contra stopped
      exact stop ⟨steps, bound, by simpa using stopped⟩
    refine ⟨?_, ?_⟩
    · rw [find_eq_none_iff]
      intro entry member
      obtain ⟨position, positionBound, held⟩ := mem_entries.mp member
      have passed := (forall_place_iff startBound (fun index => stops index = false)).mp never
        position positionBound
      simp only [stops, Bool.or_eq_false_iff] at passed
      rw [← compareAt_some held key]
      exact passed.1
    · intro fuel enough
      simp only [probe, ← start_def]
      rw [walkOnce_eq_none startBound never enough]
      rfl

/-- `get_from_hashtable` is the lookup of the finite map. -/
theorem WellFormed.getFromHashtable_eq {table : HashTable K V} (wellFormed : table.WellFormed)
    (key : K) {fuel : Nat} (enough : table.capacity ≤ fuel) :
    getFromHashtable fuel table key = some (find table.keys.equality table.present key) := by
  rcases wellFormed.probe_eq key with
    ⟨absent, probed⟩ | ⟨index, _, element, held, found, probed⟩
  · simp [getFromHashtable, probed fuel enough, absent]
  · simp [getFromHashtable, probed fuel enough, found, held]

/-- `exist_in_hashtable` is the membership test of the finite map. -/
theorem WellFormed.existInHashtable_eq {table : HashTable K V} (wellFormed : table.WellFormed)
    (key : K) {fuel : Nat} (enough : table.capacity ≤ fuel) :
    existInHashtable fuel table key =
      some (find table.keys.equality table.present key).isSome := by
  rcases wellFormed.probe_eq key with
    ⟨absent, probed⟩ | ⟨index, _, element, held, found, probed⟩
  · simp [existInHashtable, probed fuel enough, absent]
  · simp [existInHashtable, probed fuel enough, found]

/-! ## Filling a free slot -/

/-- A probe from a home reaches a free slot when there is one, and the slots
it passes are occupied. -/
theorem exists_first_free {capacity start : Nat} {elements : Nat → Option (HashTableElement K V)}
    (startBound : start < capacity) (room : (entries elements capacity).length < capacity)
    (extra : Nat → Bool) :
    ∃ steps < capacity, FirstStop capacity
      (fun index => freeAt elements index || extra index) start steps := by
  obtain ⟨position, bound, free⟩ := exists_free room
  let stops := fun index => freeAt elements index || extra index
  have stopped : stops (place capacity start (offset capacity start position)) = true := by
    simp [stops, place_offset startBound bound, freeAt, free]
  obtain ⟨steps, within, first⟩ := exists_firstStop stopped
  have below := offset_lt (by omega : 0 < capacity) start position
  exact ⟨steps, by omega, first⟩

/-- The slots before the first free one are occupied. -/
theorem clearPath_of_firstStop {capacity steps : Nat} {keys : KeyFunctions K}
    {elements : Nat → Option (HashTableElement K V)} (element : HashTableElement K V)
    {extra : Nat → Bool} (positive : 0 < capacity) (bound : steps < capacity)
    (first : FirstStop capacity (fun index => freeAt elements index || extra index)
      (keys.hash element.1 % capacity) steps) :
    ClearPath capacity (home keys capacity) elements element
      (place capacity (keys.hash element.1 % capacity) steps) := by
  intro earlier below
  rw [home, offset_place (Nat.mod_lt _ positive) bound] at below
  have passed := first.2 earlier below
  simp only [Bool.or_eq_false_iff] at passed
  intro free
  rw [← freeAt_iff] at free
  rw [home] at free
  rw [free] at passed
  cases passed.1

/-! ## Growth -/

/-- The rehash loop moves the entries of the old array into a new one whose slots are free. -/
theorem rehash_spec {newCapacity : Nat} (keys : KeyFunctions K)
    {fresh : Nat → Option (HashTableElement K V)}
    (clean : ∀ slot < newCapacity, fresh slot = none)
    (old : Nat → Option (HashTableElement K V)) (done : Nat) (room : done < newCapacity) :
    ∃ elements, (∀ fuel, newCapacity ≤ fuel →
        rehash fuel keys old newCapacity fresh done = some elements) ∧
      Probed newCapacity (home keys newCapacity) elements ∧
      (entries elements newCapacity).Perm (entries old done) := by
  induction done with
  | zero =>
      refine ⟨fresh, fun _ _ => rfl, ?_, ?_⟩
      · intro position bound entry held
        rw [clean position bound] at held
        cases held
      · rw [entries_congr clean, entries_free, entries_zero]
  | succ done inductionHypothesis =>
      obtain ⟨elements, moved, probed, permutation⟩ := inductionHypothesis (by omega)
      cases held : old done with
      | none =>
          refine ⟨elements, fun fuel enough => by simp [rehash, moved fuel enough, held],
            probed, ?_⟩
          simpa [entries_succ, held] using permutation
      | some element =>
          have positive : 0 < newCapacity := by omega
          have startBound := Nat.mod_lt (keys.hash element.1) positive
          have below : (entries elements newCapacity).length < newCapacity := by
            have length := permutation.length_eq
            have atMost := length_entries_le old done
            omega
          obtain ⟨steps, bound, first⟩ :=
            exists_first_free startBound below (fun _ => false)
          have free : elements (place newCapacity (keys.hash element.1 % newCapacity) steps) =
              none := by
            have stopped := first.1
            simpa [freeAt] using stopped
          have path := clearPath_of_firstStop element positive bound first
          have firstFree : FirstStop newCapacity (freeAt elements)
              (keys.hash element.1 % newCapacity) steps := by
            simpa using first
          refine ⟨_, ?_, probed.fill free path, ?_⟩
          · intro fuel enough
            have walked := walk_eq startBound firstFree (by omega : steps < fuel)
            simp [rehash, moved fuel enough, held, walked]
          rw [entries_succ, held]
          exact (entries_fill (place_lt positive _ _) free element).trans
            ((permutation.cons element).trans (List.perm_append_singleton element _).symm)

/-- A table that grows is given an array of free slots. -/
def GrowsClean (table : HashTable K V) (fresh : Nat → Option (HashTableElement K V)) : Prop :=
  ¬ 4 * table.count < 3 * table.capacity → ∀ slot < 2 * table.capacity, fresh slot = none

/-- `grow_hashtable` into an array of free slots keeps the entries and leaves a free slot. -/
theorem WellFormed.grow {table : HashTable K V} (wellFormed : table.WellFormed)
    {fresh : Nat → Option (HashTableElement K V)} (clean : table.GrowsClean fresh) :
    ∃ grown, (∀ fuel, 2 * table.capacity ≤ fuel →
        growHashtable fuel fresh table = some grown) ∧ grown.WellFormed ∧
      grown.keys = table.keys ∧ grown.present.Perm table.present ∧
      grown.count < grown.capacity ∧ grown.capacity ≤ 2 * table.capacity := by
  have positive := wellFormed.positive
  unfold growHashtable
  by_cases spare : 4 * table.count < 3 * table.capacity
  · refine ⟨table, fun _ _ => by simp [spare], wellFormed, rfl, List.Perm.refl _, by omega,
      by omega⟩
  · obtain ⟨elements, moved, probed, permutation⟩ :=
      rehash_spec table.keys (clean spare) table.elements table.capacity
        (by omega : table.capacity < 2 * table.capacity)
    refine ⟨{ table with capacity := 2 * table.capacity, elements := elements },
      fun fuel enough => by simp [spare, moved fuel enough], ⟨?_, probed, ?_, ?_⟩, rfl,
      permutation, ?_, le_rfl⟩
    · exact Nat.mul_pos (by decide) positive
    · exact wellFormed.counted.trans permutation.length_eq.symm
    · exact wellFormed.distinct.perm permutation.symm
    · have counted := wellFormed.counted
      have atMost := length_entries_le table.elements table.capacity
      simp only [present] at counted
      simp only
      omega

/-! ## Insertion -/

/-- `insert_into_hashtable` is insertion of absent keys, and returns the entry
then held under the key, where the table grows into free slots. -/
theorem WellFormed.insertIntoHashtable_clean {table : HashTable K V}
    (wellFormed : table.WellFormed) {fresh : Nat → Option (HashTableElement K V)}
    (clean : table.GrowsClean fresh) (key : K) (value : V) :
    ∃ after, (∀ fuel, 2 * table.capacity ≤ fuel →
        insertIntoHashtable fuel fresh table key value =
          some (after, find table.keys.equality
            (insertIfAbsent table.keys.equality table.present key value) key)) ∧
      after.WellFormed ∧ after.keys = table.keys ∧
      after.present.Perm (insertIfAbsent table.keys.equality table.present key value) := by
  obtain ⟨grown, grew, grownWellFormed, sameKeys, permutation, room, bounded⟩ :=
    wellFormed.grow clean
  have sameFind := wellFormed.distinct.find_perm permutation.symm key
  have startBound := Nat.mod_lt (grown.keys.hash key) grownWellFormed.positive
  have below : (entries grown.elements grown.capacity).length < grown.capacity := by
    have counted := grownWellFormed.counted
    rw [present] at counted
    omega
  obtain ⟨steps, bound, first⟩ := exists_first_free startBound below
    (fun index => compareAt grown.keys grown.elements key index)
  have walked := fun fuel (enough : 2 * table.capacity ≤ fuel) =>
    walk_eq startBound first (by omega : steps < fuel)
  have indexBound := place_lt grownWellFormed.positive
    (grown.keys.hash key % grown.capacity) steps
  have passed : ∀ earlier < steps, compareAt grown.keys grown.elements key
      (place grown.capacity (grown.keys.hash key % grown.capacity) earlier) = false := by
    intro earlier before
    have others := first.2 earlier before
    simp only [Bool.or_eq_false_iff] at others
    exact others.2
  cases held : grown.elements
      (place grown.capacity (grown.keys.hash key % grown.capacity) steps) with
  | some element =>
      have hit : grown.keys.equality.same element.1 key = true := by
        have stopped := first.1
        rw [← compareAt_some held]
        simpa [freeAt, held] using stopped
      have found : find table.keys.equality table.present key = some element := by
        rw [sameFind, ← sameKeys, grownWellFormed.distinct.find_eq_some_iff]
        exact ⟨mem_entries.mpr ⟨_, indexBound, held⟩, hit⟩
      have kept : insertIfAbsent table.keys.equality table.present key value =
          table.present := by
        simp [insertIfAbsent, found]
      refine ⟨grown, ?_, grownWellFormed, sameKeys, by rwa [kept]⟩
      intro fuel enough
      rw [kept, found]
      simp [insertIntoHashtable, grew fuel enough, walked fuel enough, held]
  | none =>
      have absent : find table.keys.equality table.present key = none := by
        rw [sameFind, ← sameKeys]
        exact grownWellFormed.absent_before held passed
      have added : insertIfAbsent table.keys.equality table.present key value =
          (key, value) :: table.present := by
        simp [insertIfAbsent, absent]
      have path := clearPath_of_firstStop (key, value) grownWellFormed.positive bound first
      have filled := entries_fill indexBound held (key, value)
      have distinctAfter : Distinct table.keys.equality ((key, value) :: table.present) := by
        have := wellFormed.distinct.insertIfAbsent key value
        rwa [added] at this
      let after : HashTable K V := { grown with
        count := grown.count + 1
        elements := Function.update grown.elements
          (place grown.capacity (grown.keys.hash key % grown.capacity) steps)
          (some (key, value)) }
      refine ⟨after, ?_, ⟨grownWellFormed.positive,
        grownWellFormed.probed.fill held path, ?_, ?_⟩, sameKeys, ?_⟩
      · intro fuel enough
        rw [added]
        simp [insertIntoHashtable, grew fuel enough, walked fuel enough, held, find,
          table.keys.equality.refl, after]
      · have counted := grownWellFormed.counted
        have length := filled.length_eq
        simp only [present, List.length_cons] at counted length ⊢
        simp only [after]
        omega
      · change Distinct grown.keys.equality _
        rw [sameKeys]
        exact distinctAfter.perm ((permutation.symm.cons _).trans filled.symm)
      · rw [added]
        exact filled.trans (permutation.cons _)

theorem WellFormed.insertIntoHashtable_spec {table : HashTable K V}
    (wellFormed : table.WellFormed) (key : K) (value : V) :
    ∃ after, (∀ fuel, 2 * table.capacity ≤ fuel →
        insertIntoHashtable fuel (fun _ => none) table key value =
          some (after, find table.keys.equality
            (insertIfAbsent table.keys.equality table.present key value) key)) ∧
      after.WellFormed ∧ after.keys = table.keys ∧
      after.present.Perm (insertIfAbsent table.keys.equality table.present key value) :=
  wellFormed.insertIntoHashtable_clean (fun _ _ _ => rfl) key value

/-! ## Deletion -/

theorem staysAt_iff {capacity deletion current ideal : Nat} (deletionBound : deletion < capacity)
    (currentBound : current < capacity) (idealBound : ideal < capacity) :
    staysAt deletion current ideal = true ↔ InArc capacity deletion current ideal := by
  rw [inArc_iff deletionBound currentBound idealBound]
  unfold staysAt
  split_ifs <;> simp

/-- The backward shift ends, keeps the entries and restores the placement
invariant, within as many turns as the displacement of the entries allows. The
induction is on that displacement, and within it on the slots not yet scanned. -/
theorem shiftBack_spec {capacity : Nat} {keys : KeyFunctions K}
    {elements : Nat → Option (HashTableElement K V)} {deletion current : Nat}
    (shifting : Shifting capacity (home keys capacity) elements deletion current) :
    ∃ turns repaired, (∀ fuel, turns ≤ fuel →
        shiftBack keys capacity fuel elements deletion current = some repaired) ∧
      turns ≤ displacement capacity (home keys capacity) elements * capacity +
        (capacity - offset capacity deletion current) ∧
      Probed capacity (home keys capacity) repaired ∧
      (entries repaired capacity).Perm (entries elements capacity) := by
  have positive : 0 < capacity := by
    have := shifting.holeBound
    omega
  have homeBound := home_lt (V := V) positive keys
  generalize spread : displacement capacity (home keys capacity) elements = moves
  induction moves using Nat.strong_induction_on generalizing elements deletion current with
  | _ moves moveHypothesis =>
  generalize unscanned : capacity - offset capacity deletion current = left
  induction left using Nat.strong_induction_on generalizing current with
  | _ left scanHypothesis =>
  have nextBound : (current + 1) % capacity < capacity := Nat.mod_lt _ positive
  cases held : elements ((current + 1) % capacity) with
  | none =>
      have below := offset_lt positive deletion current
      refine ⟨1, elements, ?_, by omega, shifting.finish homeBound held, List.Perm.refl _⟩
      intro fuel enough
      obtain ⟨fuel, rfl⟩ : ∃ rest, fuel = rest + 1 := ⟨fuel - 1, by omega⟩
      simp [shiftBack, held]
  | some element =>
      have decided := staysAt_iff shifting.holeBound nextBound
        (homeBound element)
      cases stays : staysAt deletion ((current + 1) % capacity) (home keys capacity element) with
      | true =>
          have arc := decided.mp stays
          have next := offset_next shifting.holeBound shifting.currentBound
          have below := offset_lt positive deletion current
          have partway : offset capacity deletion current + 1 < capacity := by
            by_contra last
            rw [(by omega : offset capacity deletion current + 1 = capacity),
              Nat.mod_self] at next
            have upper := arc.2
            have lower := arc.1
            omega
          rw [Nat.mod_eq_of_lt partway] at next
          obtain ⟨turns, repaired, ends, few, probed, permutation⟩ :=
            scanHypothesis _ (by omega) (shifting.advance held arc) rfl
          refine ⟨turns + 1, repaired, ?_, by omega, probed, permutation⟩
          intro fuel enough
          obtain ⟨fuel, rfl⟩ : ∃ rest, fuel = rest + 1 := ⟨fuel - 1, by omega⟩
          rw [home] at stays
          simp [shiftBack, held, stays, ends fuel (by omega)]
      | false =>
          have leaves : ¬ InArc capacity deletion ((current + 1) % capacity)
              (home keys capacity element) := by
            rw [← decided, stays]
            simp
          have lessened := displacement_move homeBound shifting.holeBound nextBound shifting.free
            held leaves
          rw [spread] at lessened
          obtain ⟨turns, repaired, ends, few, probed, permutation⟩ :=
            moveHypothesis _ lessened
              (Shifting.move homeBound shifting.holeBound nextBound shifting.free
                shifting.around held leaves) rfl
          rw [offset_self nextBound] at few
          have bounded := Nat.mul_le_mul_right capacity (Nat.succ_le_of_lt lessened)
          rw [Nat.succ_mul] at bounded
          have below := offset_lt positive deletion current
          refine ⟨turns + 1, repaired, ?_, by omega, probed,
            permutation.trans (entries_move nextBound shifting.holeBound held shifting.free)⟩
          intro fuel enough
          obtain ⟨fuel, rfl⟩ : ∃ rest, fuel = rest + 1 := ⟨fuel - 1, by omega⟩
          rw [home] at stays
          simp [shiftBack, held, stays, ends fuel (by omega)]

/-- Turns that suffice for a deletion. -/
def deletionTurns (capacity : Nat) : Nat := capacity * capacity * capacity + capacity

/-- `delete_from_hashtable` is removal of a key, and tells whether it was
present. -/
theorem WellFormed.deleteFromHashtable_spec {table : HashTable K V}
    (wellFormed : table.WellFormed) (key : K) :
    ∃ after, (∀ fuel, deletionTurns table.capacity ≤ fuel → deleteFromHashtable fuel table key =
        some (after, (find table.keys.equality table.present key).isSome)) ∧
      after.WellFormed ∧ after.keys = table.keys ∧
      after.present.Perm (erase table.keys.equality table.present key) := by
  rcases wellFormed.probe_eq key with
    ⟨absent, looked⟩ | ⟨index, indexBound, element, held, found, looked⟩
  · refine ⟨table, ?_, wellFormed, rfl, by rw [erase_eq_self absent]⟩
    intro fuel enough
    simp [deleteFromHashtable, looked fuel (Nat.le_trans (Nat.le_add_left _ _) enough), absent]
  · obtain ⟨turns, repaired, ends, few, probed, permutation⟩ :=
      shiftBack_spec (Shifting.start wellFormed.probed indexBound)
    have removed := entries_empty indexBound held
    have hit := (wellFormed.distinct.find_eq_some_iff.mp found).2
    have erased : (erase table.keys.equality table.present key).Perm
        (entries (Function.update table.elements index none) table.capacity) := by
      have step := erase_perm table.keys.equality removed key
      rwa [(wellFormed.distinct.perm removed).erase_cons hit] at step
    have spread := Nat.mul_le_mul_right table.capacity (displacement_le table.capacity
      (home table.keys table.capacity) (Function.update table.elements index none))
    refine ⟨{ table with count := table.count - 1, elements := repaired }, ?_,
      ⟨wellFormed.positive, probed, ?_, ?_⟩, rfl, permutation.trans erased.symm⟩
    · intro fuel enough
      rw [deletionTurns] at enough
      simp [deleteFromHashtable, looked fuel (by omega), ends fuel (by omega), found]
    · have counted := wellFormed.counted
      have before := removed.length_eq
      have after := permutation.length_eq
      simp only [present, List.length_cons] at counted before after ⊢
      omega
    · exact (wellFormed.distinct.erase key).perm (erased.trans permutation.symm)

end HashTable

end TellyDB.Utils
