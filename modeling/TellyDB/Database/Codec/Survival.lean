import TellyDB.Database.Codec.Databases

/-!
Owns which databases survive a save: those without a null among their values and
the fields of their tables, whose numbers and strings the format can hold. A null
in a list survives.
-/

namespace TellyDB.Database.Codec

open Resp Utils Lib Positional ByteSource FiniteMap File Read HashTable

variable {σ : Type} (source : Source σ UInt8) {limit : Nat} {database : LoadedDatabase}

theorem collectDatabase_short (fuel : Nat) :
    Gives (collectDatabase source fuel) fun read => read.1.name.length < stringLimit := by
  refine (Gives.any _).bind fun count _ => ?_
  refine (collectString_short source).bind ?_
  rintro ⟨name, length⟩ short
  exact (Gives.any _).bind fun read _ => Gives.pure short

/-- The header is read back, and then an entry that is not stored is missing. -/
theorem yields_database (enough : stringLimit ≤ limit) (held : HeldDatabase database)
    {records : List Bytes} (generated : databaseRecords database = some records)
    (written : ∀ entry ∈ database.data.present, generateValue entry.2 ≠ some [])
    (short : database.name.length < stringLimit)
    (notStored : ¬∀ entry ∈ database.data.present, EntryStored entry) :
    ∃ turns, ∀ fuel, turns ≤ fuel → Yields source limit (collectDatabase source fuel)
      (databaseHeader database ++ records.flatten) fun read =>
        ∃ entry ∈ database.data.present, ∀ found ∈ read.1.data.present,
          ¬SameEntry found entry := by
  have wellFormed := held.reachable.roomy.wellFormed
  obtain ⟨created, _, distinct⟩ := held.created rfl
  have all : generateAll (fun entry : Bytes × KeyValue => generateValue entry.2)
      database.data.present = some records.flatten := by
    rw [generateAll, show database.data.present.mapM _ = some records from generated]
    rfl
  rcases yields_records source enough held.keyed held.held written created rfl distinct all
    notStored with ⟨turns, yields⟩
  refine ⟨turns, ?_⟩
  intro fuel more
  rw [databaseHeader, List.append_assoc]
  refine Yields.bind (reads_uint64 source enough held.small) ?_
  refine Yields.bind (reads_string source enough short) ?_
  have read := yields fuel ((generateStringValue database.name).length + 8) more
  rw [← wellFormed.counted] at read
  exact read.bind_gives_end fun loaded missing => Gives.pure missing

/-- Every entry of a database lies in the same database. -/
theorem SameDatabase.found {loaded : LoadedDatabase} (same : SameDatabase loaded database)
    {entry : Bytes × KeyValue} (member : entry ∈ database.data.present) :
    ∃ found ∈ loaded.data.present, SameEntry found entry := by
  rcases same.entries with ⟨order, permutation, pairs⟩
  have general : ∀ {order entries : List (Bytes × KeyValue)}, order.Forall₂ SameEntry entries →
      entry ∈ entries → ∃ found ∈ order, SameEntry found entry := by
    intro order entries pairs
    induction pairs with
    | nil => exact fun member => absurd member List.not_mem_nil
    | cons first rest inductionHypothesis =>
        intro member
        rcases List.mem_cons.mp member with rfl | later
        · exact ⟨_, List.mem_cons_self, first⟩
        · rcases inductionHypothesis later with ⟨found, isMember, sameEntry⟩
          exact ⟨found, List.mem_cons_of_mem _ isMember, sameEntry⟩
  rcases general pairs member with ⟨found, isMember, sameEntry⟩
  exact ⟨found, permutation.mem_iff.mp isMember, sameEntry⟩

/-- A database survives a save exactly when its name and every entry are stored. -/
theorem database_survives (held : HeldDatabase database) :
    Survives database ↔ DatabaseStored database := by
  constructor
  · rintro ⟨records, generated, counted, comes⟩
    have written : ∀ entry ∈ database.data.present, generateValue entry.2 ≠ some [] := by
      rwa [held.reachable.roomy.wellFormed.counted, writtenCount_eq generated] at counted
    have delivers : (ofList UInt8).Delivers stringLimit
        (databaseHeader database ++ records.flatten ++ [])
        (databaseHeader database ++ records.flatten ++ []) := ofList_delivers _
    rcases comes (ofList UInt8) (Nat.le_refl _) _ [] delivers with ⟨turns, reads⟩
    have short : database.name.length < stringLimit := by
      rcases reads turns (Nat.le_refl _) with ⟨loaded, collected, next, ran, same⟩
      rw [← same.name]
      exact collectDatabase_short (ofList UInt8) turns _ _ _ ran
    refine ⟨short, ?_⟩
    by_contra notStored
    rcases yields_database (ofList UInt8) (Nat.le_refl _) held generated written short notStored
      with ⟨enough, yields⟩
    rcases reads (max turns enough) (Nat.le_max_left _ _) with
      ⟨loaded, collected, next, ran, same⟩
    rcases yields _ (Nat.le_max_right _ _) _ _ _ _ delivers ran with ⟨entry, member, missing⟩
    rcases same.found member with ⟨found, isMember, sameEntry⟩
    exact missing found isMember sameEntry
  · intro stored
    rcases reads_database (ofList UInt8) (Nat.le_refl stringLimit) held stored with
      ⟨records, -, -, generated, counted, -, -⟩
    refine ⟨records, generated, counted, ?_⟩
    intro σ source limit enough state rest delivers
    rcases reads_database source enough held stored with
      ⟨again, loaded, turns, generatedAgain, -, same, reads⟩
    rw [generated, Option.some.injEq] at generatedAgain
    subst generatedAgain
    refine ⟨turns, ?_⟩
    intro fuel more
    rcases reads fuel more state rest delivers with ⟨next, ran, -⟩
    exact ⟨loaded, _, next, ran, same⟩

/-! ## A database of one key -/

/-- The key `n` of a new database, with a value. -/
def singleton (value : Value) : LoadedDatabase where
  name := [0x30]
  data := {
    capacity := databaseInitialSize
    count := 1
    elements := Function.update (fun _ => none) (stringHash [0x6e] % databaseInitialSize)
      (some ([0x6e], ⟨[0x6e], value⟩))
    keys := stringKeys }

theorem singleton_present (value : Value) :
    (singleton value).data.present = [([0x6e], ⟨[0x6e], value⟩)] := by
  have positive : 0 < databaseInitialSize := Nat.succ_pos _
  have filled := @SlotArray.entries_fill (Bytes × KeyValue) (fun _ => none) databaseInitialSize
    _ (Nat.mod_lt (stringHash [0x6e]) positive) rfl ([0x6e], ⟨[0x6e], value⟩)
  rw [SlotArray.entries_free] at filled
  rw [present, singleton]
  exact List.perm_singleton.mp filled

theorem singleton_held {value : Value} (held : Held value) : HeldDatabase (singleton value) where
  reachable := by
    have inserted : ∀ fuel, 1 ≤ fuel → run fuel (createHashtable databaseInitialSize stringKeys)
        (.insert [0x6e] ⟨[0x6e], value⟩) =
          some ((singleton value).data, .element (some ([0x6e], ⟨[0x6e], value⟩))) := by
      intro fuel enough
      obtain ⟨before, rfl⟩ : ∃ before, fuel = before + 1 := ⟨fuel - 1, by omega⟩
      rfl
    have positive : 1 ≤ databaseInitialSize := Nat.succ_pos _
    exact Reachable.call (Reachable.create positive) inserted
  small := by
    show 1 < UInt64.size
    decide
  keyed := by
    intro entry member
    rw [singleton_present, List.mem_singleton] at member
    rw [member]
  held := by
    intro entry member
    rw [singleton_present, List.mem_singleton] at member
    rw [member]
    exact held

/-- A list with a null survives. -/
theorem database_survives_list : Survives (singleton (.list [.null, .bool true])) :=
  (database_survives (singleton_held (by show 2 < UInt64.size; decide))).mpr
    ⟨by show 1 < stringLimit; decide, by
      intro entry member
      rw [singleton_present, List.mem_singleton] at member
      rw [member]
      refine ⟨by show 1 < stringLimit; decide, ?_⟩
      intro element isElement
      simp only [List.mem_cons, List.not_mem_nil, or_false] at isElement
      rcases isElement with rfl | rfl <;> trivial⟩

/-- The header of a database whose only value is null counts a record that is not written. -/
theorem null_lost : HeldDatabase (singleton (.scalar .null)) ∧
    ¬Survives (singleton (.scalar .null)) := by
  refine ⟨singleton_held trivial, ?_⟩
  rintro ⟨records, generated, counted, -⟩
  rw [databaseRecords, singleton_present] at generated
  cases generated
  exact absurd counted Nat.zero_ne_one

end TellyDB.Database.Codec
