import TellyDB.Database.Codec.Limits

/-!
Owns the codec of a database: the header that `save_data` writes, the records in
the order of their slots, and when `collect_database` gives the same database
back.
-/

namespace TellyDB.Database.Codec

open Resp Utils Lib Positional ByteSource FiniteMap File Read HashTable

/-- The entries of a database with the record that each of them is written as. -/
def databaseRecords (database : LoadedDatabase) : Option (List Bytes) :=
  database.data.present.mapM fun entry => generateValue entry.2

/-- The entry count and the name. -/
def databaseHeader (database : LoadedDatabase) : Bytes :=
  littleEndian 8 database.data.count ++ generateStringValue database.name

/-- The records that hold any byte. -/
def writtenCount (records : List Bytes) : Nat := records.countP fun record => !record.isEmpty

/-- A database as a server holds it: every entry lies under its own key. -/
structure HeldDatabase (database : LoadedDatabase) : Prop where
  reachable : Reachable stringKeys database.data
  small : database.data.count < UInt64.size
  keyed : ∀ entry ∈ database.data.present, entry.1 = entry.2.key
  held : ∀ entry ∈ database.data.present, Held entry.2.value

/-- An entry with a key and a value that come back. -/
def EntryStored (entry : Bytes × KeyValue) : Prop :=
  entry.2.key.length < stringLimit ∧ ValueStored entry.2.value

/-- The same key and the same value. -/
structure SameEntry (loaded entry : Bytes × KeyValue) : Prop where
  slot : loaded.1 = entry.1
  key : loaded.2.key = entry.2.key
  value : SameValue loaded.2.value entry.2.value

/-- The same name, and the same entries in whatever slots. -/
structure SameDatabase (loaded database : LoadedDatabase) : Prop where
  name : loaded.name = database.name
  entries : ∃ order : List (Bytes × KeyValue), order.Perm loaded.data.present ∧
    order.Forall₂ SameEntry database.data.present

/-- The name and every entry come back. -/
structure DatabaseStored (database : LoadedDatabase) : Prop where
  name : database.name.length < stringLimit
  entries : ∀ entry ∈ database.data.present, EntryStored entry

/-- The generators write all of the database, as many records as its header counts, and whoever
reads them back has the same database. -/
def Survives (database : LoadedDatabase) : Prop :=
  ∃ records, databaseRecords database = some records ∧
    writtenCount records = database.data.count ∧
    ∀ {σ : Type} (source : Source σ UInt8) {limit : Nat}, stringLimit ≤ limit →
      ∀ state rest, source.Delivers limit state
          (databaseHeader database ++ records.flatten ++ rest) →
        ∃ turns, ∀ fuel, turns ≤ fuel → ∃ loaded collected next,
          collectDatabase source fuel state = some ((loaded, collected), next) ∧
            SameDatabase loaded database

section Reading

variable {σ : Type} (source : Source σ UInt8) {limit : Nat}

/-! ## One record -/

theorem collectKv_short (fuel : Nat) :
    Gives (collectKv source fuel) fun read => read.1.key.length < stringLimit := by
  refine (collectString_short source).bind ?_
  rintro ⟨key, length⟩ short
  refine (Gives.any _).bind ?_
  intro type _
  cases type with
  | hashtable =>
      refine (Gives.any _).bind fun capacity _ => ?_
      exact (Gives.any _).bind fun read _ => Gives.pure short
  | list =>
      refine (Gives.any _).bind fun count _ => ?_
      exact (Gives.any _).bind fun read _ => Gives.pure short
  | unknown => exact (Gives.any _).bind fun read _ => Gives.pure short
  | null => exact (Gives.any _).bind fun read _ => Gives.pure short
  | int => exact (Gives.any _).bind fun read _ => Gives.pure short
  | double => exact (Gives.any _).bind fun read _ => Gives.pure short
  | str => exact (Gives.any _).bind fun read _ => Gives.pure short
  | bool => exact (Gives.any _).bind fun read _ => Gives.pure short

/-- A record whose value is not stored gives another value, or nothing. -/
theorem yields_record (enough : stringLimit ≤ limit) {kv : KeyValue}
    (short : kv.key.length < stringLimit) (held : Held kv.value)
    (notStored : ¬ValueStored kv.value) {bytes : Bytes}
    (generated : generateValue kv = some bytes) (written : bytes ≠ []) (fuel : Nat) :
    Yields source limit (collectKv source fuel) bytes
      fun read => read.1.key = kv.key ∧ ¬SameValue read.1.value kv.value := by
  have limits : stringLimit = 1073741824 := rfl
  have readsKey := reads_string source enough short
  rcases kv with ⟨key, value⟩
  cases value with
  | scalar value =>
      rw [generateValue] at generated
      dsimp only at generated
      split at generated
      · rw [Option.bind_eq_bind, Option.bind_eq_some_iff] at generated
        rcases generated with ⟨payload, generatedValue, made⟩
        cases made
        refine Yields.bind readsKey ?_
        refine Yields.bind_cons (reads_type source (by omega) value.type) ?_
        have yields := yields_primitive source enough notStored generatedValue
        have other : ∀ read : Scalar × Nat, read.1 ≠ value →
            Gives (pure (⟨key, .scalar read.1⟩, (generateStringValue key).length + 1 + read.2) :
              Collecting σ (KeyValue × Nat))
              fun read => read.1.key = key ∧ ¬SameValue read.1.value (.scalar value) :=
          fun read differs => Gives.pure ⟨rfl, differs⟩
        cases value with
        | null => cases generatedValue
        | unknown => cases generatedValue
        | int number => exact yields.bind_gives_end other
        | double number => exact yields.bind_gives_end other
        | str string => exact yields.bind_gives_end other
        | bool boolean => exact yields.bind_gives_end other
      · cases generated
        exact absurd rfl written
  | hashtable table =>
      have wellFormed := held.2.roomy.wellFormed
      have created : (createHashtable table.capacity stringKeys :
          HashTable Bytes Scalar).WellFormed := wellFormed_create wellFormed.positive stringKeys
      have empty : (createHashtable table.capacity stringKeys :
          HashTable Bytes Scalar).present = [] := SlotArray.entries_free _
      have distinct : Distinct stringKeys.equality (table.present ++
          (createHashtable table.capacity stringKeys : HashTable Bytes Scalar).present) := by
        have own := wellFormed.distinct
        rwa [empty, List.append_nil, ← held.2.keys_eq]
      rw [generateValue] at generated
      dsimp only at generated
      rw [foreach_generate, Option.bind_eq_bind, Option.bind_eq_some_iff] at generated
      rcases generated with ⟨fields, generatedFields, made⟩
      cases made
      rw [List.append_assoc, List.append_assoc]
      refine Yields.bind readsKey ?_
      refine Yields.bind_cons (reads_type source (by omega) TellyType.hashtable) ?_
      refine Yields.bind (reads_uint64 source enough held.1) ?_
      refine (yields_fields source enough created rfl distinct generatedFields notStored fuel
        _).bind_gives_end ?_
      rintro ⟨loaded, collected⟩ ⟨field, member, lost⟩
      refine Gives.pure ⟨rfl, fun same => ?_⟩
      exact lost (HashTable.Same.present same |>.mem_iff.mpr member)
  | list elements =>
      rw [generateValue] at generated
      dsimp only at generated
      rw [Option.bind_eq_bind, Option.bind_eq_some_iff] at generated
      rcases generated with ⟨payload, generatedElements, made⟩
      cases made
      rw [List.append_assoc]
      refine Yields.bind readsKey ?_
      refine Yields.bind_cons (reads_type source (by omega) TellyType.list) ?_
      refine Yields.bind (reads_uint64 source enough held) ?_
      refine (yields_elements source enough generatedElements notStored _).bind_gives_end ?_
      intro read differs
      exact Gives.pure ⟨rfl, differs⟩

/-! ## One record after the other -/

theorem collectRecords_extended (fuel count : Nat) {data : HashTable Bytes KeyValue}
    (wellFormed : data.WellFormed) (collected : Nat) :
    Gives (collectRecords source fuel count data collected)
      fun read => Extended data read.1 := by
  induction count generalizing data collected with
  | zero => exact Gives.pure (Extended.refl wellFormed)
  | succ count inductionHypothesis =>
      rw [collectRecords]
      refine (collectKv_short source fuel).bind ?_
      rintro ⟨kv, length⟩ short
      refine Gives.bind_lift ?_
      intro after inserted
      have extended := Extended.insertLoaded wellFormed short inserted
      intro state read next ran
      exact extended.trans (inductionHypothesis extended.wellFormed _ state read next ran)

/-- Stored records come back into the table. -/
theorem reads_records (enough : stringLimit ≤ limit) {entries : List (Bytes × KeyValue)}
    (keyed : ∀ entry ∈ entries, entry.1 = entry.2.key)
    (held : ∀ entry ∈ entries, Held entry.2.value)
    (stored : ∀ entry ∈ entries, EntryStored entry) {data : HashTable Bytes KeyValue}
    (wellFormed : data.WellFormed) (keys_eq : data.keys = stringKeys)
    (distinct : Distinct stringKeys.equality (entries ++ data.present)) :
    ∃ bytes loaded order turns,
      generateAll (fun entry : Bytes × KeyValue => generateValue entry.2) entries = some bytes ∧
      loaded.present.Perm (order ++ data.present) ∧ order.Forall₂ SameEntry entries ∧
      ∀ fuel collected, turns ≤ fuel →
        Reads source limit (collectRecords source fuel entries.length data collected) bytes
          (loaded, collected + bytes.length) := by
  induction entries generalizing data with
  | nil =>
      exact ⟨[], data, [], 0, rfl, List.Perm.refl _, List.Forall₂.nil,
        fun fuel collected _ => Reads.pure _⟩
  | cons entry rest inductionHypothesis =>
      rcases entry with ⟨name, kv⟩
      have own : name = kv.key := keyed (name, kv) List.mem_cons_self
      have kvStored := stored (name, kv) List.mem_cons_self
      subst own
      rcases reads_record source enough kvStored.1 (held (kv.key, kv) List.mem_cons_self)
        kvStored.2 with ⟨first, loadedKv, turns, generated, sameKey, sameValue, reads⟩
      have absent := find_none_of_distinct keys_eq distinct
      rcases insertLoaded_absent wellFormed absent loadedKv with
        ⟨after, inserted, afterFormed, sameKeys, entered, -⟩
      have restDistinct := distinct_entered distinct entered
      rcases inductionHypothesis
          (fun other member => keyed other (List.mem_cons_of_mem _ member))
          (fun other member => held other (List.mem_cons_of_mem _ member))
          (fun other member => stored other (List.mem_cons_of_mem _ member)) afterFormed
          (sameKeys.trans keys_eq) restDistinct with
        ⟨more, loaded, order, laterTurns, generatedRest, present, same, readsRest⟩
      refine ⟨first ++ more, loaded, (kv.key, loadedKv) :: order, max turns laterTurns, ?_, ?_,
        List.Forall₂.cons ⟨rfl, sameKey, sameValue⟩ same, ?_⟩
      · rw [generateAll_cons, generated, Option.bind_some, generatedRest, Option.map_some]
      · exact present.trans ((entered.append_left order).trans List.perm_middle)
      · intro fuel collected more_fuel
        rw [List.length_append, ← Nat.add_assoc, List.length_cons, collectRecords]
        refine (reads fuel (by omega)).bind ?_
        dsimp only
        rw [sameKey]
        refine Reads.bind_lift inserted ?_
        exact readsRest fuel _ (by omega)

/-- An entry that is not stored is not in the table that is read. -/
theorem yields_records (enough : stringLimit ≤ limit) {entries : List (Bytes × KeyValue)}
    (keyed : ∀ entry ∈ entries, entry.1 = entry.2.key)
    (held : ∀ entry ∈ entries, Held entry.2.value)
    (written : ∀ entry ∈ entries, generateValue entry.2 ≠ some [])
    {data : HashTable Bytes KeyValue} (wellFormed : data.WellFormed)
    (keys_eq : data.keys = stringKeys)
    (distinct : Distinct stringKeys.equality (entries ++ data.present)) {bytes : Bytes}
    (generated :
      generateAll (fun entry : Bytes × KeyValue => generateValue entry.2) entries = some bytes)
    (notStored : ¬∀ entry ∈ entries, EntryStored entry) :
    ∃ turns, ∀ fuel collected, turns ≤ fuel →
      Yields source limit (collectRecords source fuel entries.length data collected) bytes
        fun read => ∃ entry ∈ entries, ∀ found ∈ read.1.present, ¬SameEntry found entry := by
  induction entries generalizing data bytes with
  | nil => exact absurd (fun entry member => absurd member List.not_mem_nil) notStored
  | cons entry rest inductionHypothesis =>
      rcases entry with ⟨name, kv⟩
      have own : name = kv.key := keyed (name, kv) List.mem_cons_self
      subst own
      rw [generateAll_cons, Option.bind_eq_some_iff] at generated
      rcases generated with ⟨first, generatedFirst, generatedRest⟩
      rw [Option.map_eq_some_iff] at generatedRest
      rcases generatedRest with ⟨more, generatedMore, rfl⟩
      have kvHeld := held (kv.key, kv) List.mem_cons_self
      have absent := find_none_of_distinct keys_eq distinct
      by_cases short : kv.key.length < stringLimit
      · by_cases stored : ValueStored kv.value
        · have restLost : ¬∀ entry ∈ rest, EntryStored entry := fun restStored =>
            notStored (List.forall_mem_cons.mpr ⟨⟨short, stored⟩, restStored⟩)
          rcases reads_record source enough short kvHeld stored with
            ⟨again, loadedKv, turns, generatedAgain, sameKey, sameValue, reads⟩
          rw [generatedFirst, Option.some.injEq] at generatedAgain
          subst generatedAgain
          rcases insertLoaded_absent wellFormed absent loadedKv with
            ⟨after, inserted, afterFormed, sameKeys, entered, -⟩
          rcases inductionHypothesis
              (fun other member => keyed other (List.mem_cons_of_mem _ member))
              (fun other member => held other (List.mem_cons_of_mem _ member))
              (fun other member => written other (List.mem_cons_of_mem _ member)) afterFormed
              (sameKeys.trans keys_eq) (distinct_entered distinct entered) generatedMore
              restLost with ⟨laterTurns, later⟩
          refine ⟨max turns laterTurns, ?_⟩
          intro fuel collected more_fuel
          rw [List.length_cons, collectRecords]
          refine Yields.bind (reads fuel (by omega)) ?_
          dsimp only
          rw [sameKey]
          refine Yields.bind_lift inserted ?_
          intro state following read next delivers ran
          rcases later fuel _ (by omega) state following read next delivers ran with
            ⟨missing, member, lost⟩
          exact ⟨missing, List.mem_cons_of_mem _ member, lost⟩
        · refine ⟨0, ?_⟩
          intro fuel collected _
          have nonempty : first ≠ [] := by
            rintro rfl
            exact written (kv.key, kv) List.mem_cons_self generatedFirst
          rw [List.length_cons, collectRecords]
          refine (yields_record source enough short kvHeld stored generatedFirst nonempty
            fuel).bind_gives more ?_
          rintro ⟨other, length⟩ ⟨sameKey, differs⟩
          dsimp only at sameKey differs ⊢
          rw [sameKey]
          refine Gives.bind_lift ?_
          intro after inserted
          rcases insertLoaded_absent wellFormed absent other with
            ⟨reached, again, afterFormed, sameKeys, entered, -⟩
          rw [inserted, Option.some.injEq] at again
          subst again
          intro state read next ran
          have extended := collectRecords_extended source fuel rest.length afterFormed _ state
            read next ran
          refine ⟨(kv.key, kv), List.mem_cons_self, ?_⟩
          rintro ⟨foundName, found⟩ member same
          have slot : foundName = kv.key := same.slot
          subst slot
          have kept : (kv.key, other) ∈ read.1.present :=
            extended.kept _ (entered.mem_iff.mpr List.mem_cons_self)
          have unique : found = other := entry_unique extended.wellFormed
            (extended.keys_eq.trans (sameKeys.trans keys_eq)) member kept
          subst unique
          exact differs same.value
      · -- No key of this length is ever read.
        refine ⟨0, ?_⟩
        intro fuel collected _ state following read next _ ran
        have extended := collectRecords_extended source fuel _ wellFormed _ state read next ran
        refine ⟨(kv.key, kv), List.mem_cons_self, ?_⟩
        rintro ⟨foundName, found⟩ member same
        have slot : foundName = kv.key := same.slot
        subst slot
        rcases extended.short _ member with earlier | small
        · exact absent_of_distinct distinct found earlier
        · exact short small

/-! ## Databases -/

/-- All records are written exactly when none of them is empty. -/
theorem writtenCount_eq {α : Type} {generate : α → Option Bytes} {values : List α}
    {records : List Bytes} (generated : values.mapM generate = some records) :
    writtenCount records = values.length ↔ ∀ value ∈ values, generate value ≠ some [] := by
  induction values generalizing records with
  | nil =>
      cases generated
      exact ⟨fun _ value member => absurd member List.not_mem_nil, fun _ => rfl⟩
  | cons value rest inductionHypothesis =>
      rw [List.mapM_cons, Option.bind_eq_bind, Option.bind_eq_some_iff] at generated
      rcases generated with ⟨record, generatedFirst, generatedRest⟩
      rw [Option.bind_eq_bind, Option.bind_eq_some_iff] at generatedRest
      rcases generatedRest with ⟨more, generatedMore, made⟩
      cases made
      have bounded : writtenCount more ≤ rest.length := by
        rw [← length_mapM generatedMore]
        exact List.countP_le_length
      rw [List.forall_mem_cons, generatedFirst, ← inductionHypothesis generatedMore,
        List.length_cons]
      cases record with
      | nil =>
          have skipped : writtenCount ([] :: more) = writtenCount more := rfl
          rw [skipped]
          exact ⟨fun all => absurd all (by omega), fun both => absurd rfl both.1⟩
      | cons byte bytes =>
          have counted : writtenCount ((byte :: bytes) :: more) = writtenCount more + 1 :=
            List.countP_cons_of_pos rfl
          rw [counted, Nat.add_right_cancel_iff]
          exact ⟨fun all => ⟨nofun, all⟩, fun both => both.2⟩

/-- A record that is stored holds its key, and so some byte. -/
theorem generateValue_nonempty {entry : Bytes × KeyValue} (held : Held entry.2.value)
    (stored : EntryStored entry) : generateValue entry.2 ≠ some [] := by
  intro empty
  rcases reads_record (ofList UInt8) (Nat.le_refl stringLimit) stored.1 held stored.2 with
    ⟨bytes, loaded, turns, generated, -, -, reads⟩
  rw [empty, Option.some.injEq] at generated
  subst generated
  rcases reads turns (Nat.le_refl _) [] [] (ofList_delivers _) with ⟨next, ran, -⟩
  -- Nothing is read from no bytes.
  cases ran

theorem databaseCapacity_pos (count : Nat) :
    0 < if databaseInitialSize < 2 ^ getBitCount count then 2 ^ getBitCount count
      else databaseInitialSize := by
  split
  · exact Nat.two_pow_pos _
  · decide

section Loading

variable {database : LoadedDatabase}

/-- The table into which a database is loaded is empty, and the keys of a held one are distinct. -/
theorem HeldDatabase.created (held : HeldDatabase database) {capacity : Nat}
    (same : capacity = if databaseInitialSize < 2 ^ getBitCount database.data.count then
      2 ^ getBitCount database.data.count else databaseInitialSize) :
    (createHashtable capacity stringKeys : HashTable Bytes KeyValue).WellFormed ∧
      (createHashtable capacity stringKeys : HashTable Bytes KeyValue).present = [] ∧
      Distinct stringKeys.equality (database.data.present ++
        (createHashtable capacity stringKeys : HashTable Bytes KeyValue).present) := by
  have positive : 0 < capacity := by
    rw [same]
    exact databaseCapacity_pos _
  have empty : (createHashtable capacity stringKeys : HashTable Bytes KeyValue).present = [] :=
    SlotArray.entries_free _
  have distinct := held.reachable.roomy.wellFormed.distinct
  rw [held.reachable.keys_eq] at distinct
  refine ⟨wellFormed_create positive stringKeys, empty, ?_⟩
  rwa [empty, List.append_nil]

/-- A stored database comes back, and its bytes are counted as they were written. -/
theorem reads_database (enough : stringLimit ≤ limit) (held : HeldDatabase database)
    (stored : DatabaseStored database) :
    ∃ records loaded turns, databaseRecords database = some records ∧
      writtenCount records = database.data.count ∧ SameDatabase loaded database ∧
      ∀ fuel, turns ≤ fuel → Reads source limit (collectDatabase source fuel)
        (databaseHeader database ++ records.flatten) (loaded, database.data.count,
          (databaseHeader database ++ records.flatten).length) := by
  have limits : stringLimit = 1073741824 := rfl
  have wellFormed := held.reachable.roomy.wellFormed
  obtain ⟨created, empty, distinct⟩ := held.created rfl
  rcases reads_records source enough held.keyed held.held stored.entries created rfl distinct with
    ⟨bytes, loaded, order, turns, generated, present, same, reads⟩
  rw [empty, List.append_nil] at present
  rw [generateAll, Option.map_eq_some_iff] at generated
  rcases generated with ⟨records, generatedRecords, rfl⟩
  refine ⟨records, ⟨database.name, loaded⟩, turns, generatedRecords, ?_,
    ⟨rfl, order, present.symm, same⟩, ?_⟩
  · rw [wellFormed.counted, writtenCount_eq generatedRecords]
    exact fun entry member =>
      generateValue_nonempty (held.held entry member) (stored.entries entry member)
  · intro fuel more
    have counted : (databaseHeader database ++ records.flatten).length =
        (generateStringValue database.name).length + 8 + records.flatten.length := by
      rw [List.length_append, databaseHeader, List.length_append, length_littleEndian]
      omega
    rw [counted, databaseHeader, List.append_assoc]
    refine (reads_uint64 source enough held.small).bind ?_
    refine (reads_string source enough stored.name).bind ?_
    have count_eq : database.data.count = database.data.present.length := wellFormed.counted
    have read := reads fuel ((generateStringValue database.name).length + 8) more
    rw [← count_eq] at read
    exact read.bind_pure rfl

end Loading

end Reading

end TellyDB.Database.Codec
