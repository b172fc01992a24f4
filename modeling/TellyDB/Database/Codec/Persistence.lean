import TellyDB.Database.Codec.OneBlock
import TellyDB.Database.Codec.Opening
import TellyDB.Database.Codec.Survival

/-!
Owns what a server finds after a save and a start. The databases and the passwords come back
where there is at most one password, the file ends in front of the end of its first block,
and everything that a database holds is stored.
-/

namespace TellyDB.Database.Codec

open Resp Utils Lib Positional ByteSource Slices FiniteMap File Read HashTable

/-! ## States -/

/-- What a server holds. One of its databases has the name of the configuration. -/
structure ServerState where
  databaseName : Bytes
  serverAge : Nat
  passwords : List Password
  databases : List LoadedDatabase
  held : ∀ database ∈ databases, HeldDatabase database
  named : ∃ database ∈ databases, stringHash database.name = stringHash databaseName

/-- A database with the records that `generate_value` makes of its entries. -/
def writtenDatabase (database : LoadedDatabase) : Option SavedDatabase :=
  (databaseRecords database).map fun records => ⟨database.name, database.data.count, records⟩

/-- What `save_data` finds, beside the file that is there. -/
def ServerState.saving (state : ServerState) (file : Bytes) : Option Saving :=
  (state.databases.mapM writtenDatabase).map fun databases =>
    ⟨state.serverAge, state.passwords, databases, file⟩

/-- Whatever the memory behind a short file held, the start finds the passwords and the databases
of the state in the file. -/
def Restores (capacity : Nat) (state : ServerState) (file : Bytes) : Prop :=
  ∀ padding, (slice file 0 capacity ++ padding).length = capacity →
    ∃ turns, ∀ fuel, turns ≤ fuel → ∃ opened,
      openDatabaseFd fuel state.databaseName file padding capacity = some opened ∧
        opened.passwords = state.passwords ∧
        opened.databases.found.Forall₂ SameDatabase state.databases

/-- The round trip of a state: the save succeeds inside its buffers, and the start restores the
state from the file that it leaves. -/
def Persists (capacity : Nat) (file : Bytes) (state : ServerState) : Prop :=
  (∀ database ∈ state.databases, BufferSuffices database.data) ∧
    ∃ saving saved, state.saving file = some saving ∧
      saveData always true capacity saving = some (true, saved) ∧ Restores capacity state saved

/-- How long the file of a state is, all of its entries written. -/
def stateLength (state : ServerState) : Nat :=
  7 + passwordCountByteCount state.passwords.length + 49 * state.passwords.length +
    (state.databases.map databaseLength).sum

/-- When a state comes back. -/
structure Persistable (capacity : Nat) (state : ServerState) : Prop where
  few : state.passwords.length ≤ 1
  within : stateLength state < capacity
  stored : ∀ database ∈ state.databases, DatabaseStored database
  roomy : ∀ database ∈ state.databases, ∀ entry ∈ database.data.present,
    ∃ other ∈ database.data.present,
      (recordLength entry.2 : Int) + shortfall other.2 ≤ recordLength other.2

/-- No entry of a database goes without a record. -/
def Written (database : LoadedDatabase) : Prop :=
  ∀ entry ∈ database.data.present, generateValue entry.2 ≠ some []

theorem DatabaseStored.written {database : LoadedDatabase} (held : HeldDatabase database)
    (stored : DatabaseStored database) : Written database :=
  fun entry member => generateValue_nonempty (held.held entry member) (stored.entries entry member)

/-! ## Lengths -/

/-- What is generated is as long as its parts, where none of them is shorter. -/
theorem length_generated {α β : Type} {generate : α → Option β} (bytes : β → Bytes)
    (length : α → Nat) {whole : α → Prop} {values : List α} {results : List β}
    (generated : values.mapM generate = some results)
    (each : ∀ value ∈ values, ∀ result, generate value = some result →
      (bytes result).length ≤ length value ∧
        ((bytes result).length = length value ↔ whole value)) :
    (results.map bytes).flatten.length ≤ (values.map length).sum ∧
      ((results.map bytes).flatten.length = (values.map length).sum ↔
        ∀ value ∈ values, whole value) := by
  induction values generalizing results with
  | nil =>
      cases generated
      simp
  | cons value rest inductionHypothesis =>
      rw [List.mapM_cons, Option.bind_eq_bind, Option.bind_eq_some_iff] at generated
      obtain ⟨result, first, generated⟩ := generated
      rw [Option.bind_eq_bind, Option.bind_eq_some_iff] at generated
      obtain ⟨more, others, made⟩ := generated
      cases made
      obtain ⟨own_le, own_iff⟩ := each value List.mem_cons_self result first
      obtain ⟨rest_le, rest_iff⟩ := inductionHypothesis others
        fun other member => each other (List.mem_cons_of_mem _ member)
      rw [List.map_cons, List.map_cons, List.flatten_cons, List.length_append, List.sum_cons,
        List.forall_mem_cons, ← own_iff, ← rest_iff]
      omega

theorem length_record {entry : Bytes × KeyValue} {record : Bytes}
    (generated : generateValue entry.2 = some record) :
    record.length ≤ entryLength entry ∧
      (record.length = entryLength entry ↔ generateValue entry.2 ≠ some []) := by
  have positive : 1 ≤ entryLength entry := by
    rw [entryLength, recordLength]
    omega
  have filled := filledLength_eq entry.2
  rw [generated]
  rcases (generateValue_length generated).1 with rfl | whole
  · rw [List.length_nil]
    exact ⟨Nat.zero_le _, fun none => absurd none (by omega), fun some_byte => absurd rfl some_byte⟩
  · rw [whole, filled]
    refine ⟨Nat.le_refl _, fun _ none => ?_, fun _ => rfl⟩
    rw [Option.some.inj none, List.length_nil, filled] at whole
    rw [entryLength] at positive
    omega

theorem length_database {database : LoadedDatabase} {saved : SavedDatabase}
    (generated : writtenDatabase database = some saved) :
    (databaseBytes saved).length ≤ databaseLength database ∧
      ((databaseBytes saved).length = databaseLength database ↔ Written database) := by
  rw [writtenDatabase, Option.map_eq_some_iff] at generated
  obtain ⟨records, generatedRecords, rfl⟩ := generated
  have lengths := length_generated id entryLength generatedRecords
    fun entry _ record generated => length_record generated
  rw [List.map_id] at lengths
  have header : (databaseBytes ⟨database.name, database.data.count, records⟩).length =
      8 + textLength database.name.length + records.flatten.length := by
    rw [databaseBytes, headerBytes, List.length_append, List.length_append, length_littleEndian,
      length_generateStringValue, textLength]
  rw [header, databaseLength, Written, ← lengths.2]
  omega

theorem length_saving {state : ServerState} {file : Bytes} {saving : Saving}
    (found : state.saving file = some saving) :
    saving.passwords = state.passwords ∧
      (fileBytes saving).length = (startBytes saving).length +
        (saving.databases.map databaseBytes).flatten.length ∧
      (startBytes saving).length + (state.databases.map databaseLength).sum = stateLength state ∧
      (saving.databases.map databaseBytes).flatten.length ≤
        (state.databases.map databaseLength).sum ∧
      ((saving.databases.map databaseBytes).flatten.length =
          (state.databases.map databaseLength).sum ↔
        ∀ database ∈ state.databases, Written database) := by
  rw [ServerState.saving, Option.map_eq_some_iff] at found
  obtain ⟨databases, generated, rfl⟩ := found
  refine ⟨rfl, by rw [fileBytes_eq, List.length_append], ?_, ?_⟩
  · rw [length_startBytes, stateLength]
  · exact length_generated databaseBytes databaseLength generated
      fun database _ saved generated => length_database generated

/-! ## The same lengths -/

theorem sum_length_eq {α : Type} {same : α → α → Prop} (length : α → Nat)
    (each : ∀ left right, same left right → length left = length right) {lefts rights : List α}
    (pairs : lefts.Forall₂ same rights) : (lefts.map length).sum = (rights.map length).sum := by
  induction pairs with
  | nil => rfl
  | cons first rest inductionHypothesis =>
      rw [List.map_cons, List.map_cons, List.sum_cons, List.sum_cons, each _ _ first,
        inductionHypothesis]

theorem SameValue.length_eq : ∀ {loaded value : Value}, SameValue loaded value →
    valueLength loaded = valueLength value
  | .scalar _, .scalar _, same => by
      cases same
      rfl
  | .hashtable _, .hashtable _, same => by
      rw [valueLength, valueLength, ((HashTable.Same.present same).map _).sum_eq]
  | .list _, .list _, same => by
      cases same
      rfl

theorem SameEntry.length_eq {loaded entry : Bytes × KeyValue} (same : SameEntry loaded entry) :
    entryLength loaded = entryLength entry := by
  rw [entryLength, entryLength, recordLength, recordLength, same.key, same.value.length_eq]

theorem SameDatabase.length_eq {loaded database : LoadedDatabase}
    (same : SameDatabase loaded database) : databaseLength loaded = databaseLength database := by
  obtain ⟨order, permutation, pairs⟩ := same.entries
  have entries := sum_length_eq entryLength (fun _ _ => SameEntry.length_eq) pairs
  rw [(permutation.map entryLength).sum_eq] at entries
  rw [databaseLength, databaseLength, same.name, entries]

/-! ## The databases -/

section Reading

variable {σ : Type} (source : Source σ UInt8) {limit : Nat}

theorem collectDatabases_nonempty (fuel fileSize turns collected : Nat) :
    Gives (collectDatabases source fuel fileSize turns collected)
      fun databases => databases ≠ [] := by
  cases turns with
  | zero => exact Gives.none
  | succ turns =>
      rw [collectDatabases]
      refine (Gives.any _).bind ?_
      rintro ⟨database, count, length⟩ _
      dsimp only
      split
      · exact Gives.pure (List.cons_ne_nil _ _)
      · exact (Gives.any _).bind fun databases _ => Gives.pure (List.cons_ne_nil _ _)

/-- The bytes of a database, with its records. -/
theorem writtenDatabase_some {database : LoadedDatabase} {saved : SavedDatabase}
    (generated : writtenDatabase database = some saved) :
    ∃ records, databaseRecords database = some records ∧
      databaseBytes saved = databaseHeader database ++ records.flatten := by
  rw [writtenDatabase, Option.map_eq_some_iff] at generated
  obtain ⟨records, generatedRecords, rfl⟩ := generated
  exact ⟨records, generatedRecords, rfl⟩

theorem databaseBytes_nonempty (saved : SavedDatabase) : 1 ≤ (databaseBytes saved).length := by
  rw [databaseBytes, headerBytes, List.length_append, List.length_append, length_littleEndian]
  omega

/-- A stored database is read from its bytes. -/
theorem reads_written (enough : stringLimit ≤ limit) {database : LoadedDatabase}
    (held : HeldDatabase database) (stored : DatabaseStored database) {saved : SavedDatabase}
    (generated : writtenDatabase database = some saved) :
    ∃ loaded turns, SameDatabase loaded database ∧ ∀ fuel, turns ≤ fuel →
      Reads source limit (collectDatabase source fuel) (databaseBytes saved)
        (loaded, database.data.count, (databaseBytes saved).length) := by
  obtain ⟨records, generatedRecords, bytes_eq⟩ := writtenDatabase_some generated
  obtain ⟨again, loaded, turns, generatedAgain, -, same, reads⟩ :=
    reads_database source enough held stored
  obtain rfl := Option.some.inj (generatedRecords.symm.trans generatedAgain)
  rw [bytes_eq]
  exact ⟨loaded, turns, same, reads⟩

/-- A database that is not stored is not read from its bytes. -/
theorem yields_written (enough : stringLimit ≤ limit) {database : LoadedDatabase}
    (held : HeldDatabase database) (written : Written database)
    (notStored : ¬DatabaseStored database) {saved : SavedDatabase}
    (generated : writtenDatabase database = some saved) :
    ∃ turns, ∀ fuel, turns ≤ fuel → Yields source limit (collectDatabase source fuel)
      (databaseBytes saved) fun read => ¬SameDatabase read.1 database := by
  obtain ⟨records, generatedRecords, bytes_eq⟩ := writtenDatabase_some generated
  rw [bytes_eq]
  by_cases short : database.name.length < stringLimit
  · obtain ⟨turns, yields⟩ := yields_database source enough held generatedRecords written short
      fun entries => notStored ⟨short, entries⟩
    refine ⟨turns, fun fuel more state rest read next delivers ran same => ?_⟩
    obtain ⟨entry, member, missing⟩ := yields fuel more state rest read next delivers ran
    obtain ⟨found, isMember, sameEntry⟩ := same.found member
    exact missing found isMember sameEntry
  · refine ⟨0, fun fuel _ state rest read next _ ran same => short ?_⟩
    rw [← same.name]
    exact collectDatabase_short source fuel state read next ran

/-- Stored databases are read one after the other, up to the end of the file. -/
theorem reads_databases (enough : stringLimit ≤ limit) {databases : List LoadedDatabase}
    (some_database : databases ≠ []) (held : ∀ database ∈ databases, HeldDatabase database)
    (stored : ∀ database ∈ databases, DatabaseStored database) {saved : List SavedDatabase}
    (generated : databases.mapM writtenDatabase = some saved) :
    ∃ loaded turns, loaded.Forall₂ SameDatabase databases ∧
      ∀ fuel more collected, turns ≤ fuel → databases.length ≤ more →
        Reads source limit
          (collectDatabases source fuel (collected + (saved.map databaseBytes).flatten.length) more
            collected)
          (saved.map databaseBytes).flatten loaded := by
  induction databases generalizing saved with
  | nil => exact absurd rfl some_database
  | cons database rest inductionHypothesis =>
      rw [List.mapM_cons, Option.bind_eq_bind, Option.bind_eq_some_iff] at generated
      obtain ⟨first, generatedFirst, generated⟩ := generated
      rw [Option.bind_eq_bind, Option.bind_eq_some_iff] at generated
      obtain ⟨others, generatedRest, made⟩ := generated
      cases made
      obtain ⟨loaded, turns, same, reads⟩ := reads_written source enough
        (held database List.mem_cons_self) (stored database List.mem_cons_self) generatedFirst
      rw [List.map_cons, List.flatten_cons, List.length_append]
      cases rest with
      | nil =>
          obtain rfl := List.eq_nil_of_length_eq_zero (length_mapM generatedRest)
          refine ⟨[loaded], turns, List.Forall₂.cons same List.Forall₂.nil, ?_⟩
          intro fuel more collected enough_fuel positive
          obtain ⟨before, rfl⟩ : ∃ before, more = before + 1 := ⟨more - 1, by
            rw [List.length_singleton] at positive
            omega⟩
          rw [collectDatabases]
          refine (reads fuel enough_fuel).bind ?_
          dsimp only
          rw [if_pos (by simp)]
          exact Reads.pure _
      | cons second later =>
          obtain ⟨loadedRest, laterTurns, sameRest, readsRest⟩ := inductionHypothesis
            (List.cons_ne_nil _ _) (fun other member => held other (List.mem_cons_of_mem _ member))
            (fun other member => stored other (List.mem_cons_of_mem _ member)) generatedRest
          refine ⟨loaded :: loadedRest, max turns laterTurns, List.Forall₂.cons same sameRest, ?_⟩
          intro fuel more collected enough_fuel enough_turns
          rw [List.length_cons] at enough_turns
          obtain ⟨before, rfl⟩ : ∃ before, more = before + 1 := ⟨more - 1, by omega⟩
          have some_bytes : 1 ≤ (others.map databaseBytes).flatten.length := by
            cases others with
            | nil => cases length_mapM generatedRest
            | cons saved _ =>
                have own := databaseBytes_nonempty saved
                rw [List.map_cons, List.flatten_cons, List.length_append]
                omega
          rw [collectDatabases]
          refine (reads fuel (by omega)).bind ?_
          dsimp only
          rw [if_neg (by omega), ← Nat.add_assoc]
          exact (readsRest fuel before _ (by omega) (by omega)).bind_pure rfl

/-- Databases that are all written are read as what they are only if they are stored and nothing
lies behind them. -/
theorem yields_databases (enough : stringLimit ≤ limit) {databases : List LoadedDatabase}
    (some_database : databases ≠ []) (held : ∀ database ∈ databases, HeldDatabase database)
    (written : ∀ database ∈ databases, Written database) {saved : List SavedDatabase}
    (generated : databases.mapM writtenDatabase = some saved) (extra : Bytes) :
    ∃ turns, ∀ fuel more collected, turns ≤ fuel →
      Yields source limit
        (collectDatabases source fuel
          (collected + ((saved.map databaseBytes).flatten ++ extra).length) more collected)
        ((saved.map databaseBytes).flatten ++ extra) fun found =>
          found.Forall₂ SameDatabase databases →
            (∀ database ∈ databases, DatabaseStored database) ∧ extra = [] := by
  induction databases generalizing saved with
  | nil => exact absurd rfl some_database
  | cons database rest inductionHypothesis =>
      rw [List.mapM_cons, Option.bind_eq_bind, Option.bind_eq_some_iff] at generated
      obtain ⟨first, generatedFirst, generated⟩ := generated
      rw [Option.bind_eq_bind, Option.bind_eq_some_iff] at generated
      obtain ⟨others, generatedRest, made⟩ := generated
      cases made
      have firstHeld := held database List.mem_cons_self
      have firstWritten := written database List.mem_cons_self
      rw [List.map_cons, List.flatten_cons, List.append_assoc, List.length_append]
      by_cases stored : DatabaseStored database
      · obtain ⟨loaded, turns, same, reads⟩ :=
          reads_written source enough firstHeld stored generatedFirst
        cases rest with
        | nil =>
            obtain rfl := List.eq_nil_of_length_eq_zero (length_mapM generatedRest)
            refine ⟨turns, ?_⟩
            intro fuel more collected enough_fuel
            cases more with
            | zero => exact Gives.none.yields _
            | succ before =>
                rw [collectDatabases]
                refine Yields.bind (reads fuel enough_fuel) ?_
                dsimp only
                split
                · next complete =>
                    refine (Gives.pure fun _ => ⟨?_, ?_⟩).yields _
                    · exact List.forall_mem_singleton.mpr stored
                    · apply List.eq_nil_of_length_eq_zero
                      rw [List.map_nil, List.flatten_nil, List.nil_append] at complete
                      omega
                · refine ((collectDatabases_nonempty source _ _ _ _).bind ?_).yields _
                  intro others nonempty
                  refine Gives.pure fun pairs => ?_
                  cases pairs with
                  | cons _ none =>
                      cases none
                      exact absurd rfl nonempty
        | cons second later =>
            obtain ⟨laterTurns, yields⟩ := inductionHypothesis (List.cons_ne_nil _ _)
              (fun other member => held other (List.mem_cons_of_mem _ member))
              (fun other member => written other (List.mem_cons_of_mem _ member)) generatedRest
            refine ⟨max turns laterTurns, ?_⟩
            intro fuel more collected enough_fuel
            cases more with
            | zero => exact Gives.none.yields _
            | succ before =>
                have some_bytes : 1 ≤ ((others.map databaseBytes).flatten ++ extra).length := by
                  cases others with
                  | nil => cases length_mapM generatedRest
                  | cons saved _ =>
                      have own := databaseBytes_nonempty saved
                      rw [List.map_cons, List.flatten_cons, List.length_append, List.length_append]
                      omega
                rw [collectDatabases]
                refine Yields.bind (reads fuel (by omega)) ?_
                dsimp only
                rw [if_neg (by omega), ← Nat.add_assoc]
                refine (yields fuel before _ (by omega)).bind_gives_end ?_
                intro found settled
                refine Gives.pure fun pairs => ?_
                cases pairs with
                | cons _ restPairs =>
                    obtain ⟨restStored, nothing⟩ := settled restPairs
                    exact ⟨List.forall_mem_cons.mpr ⟨stored, restStored⟩, nothing⟩
      · obtain ⟨turns, yields⟩ :=
          yields_written source enough firstHeld firstWritten stored generatedFirst
        refine ⟨turns, ?_⟩
        intro fuel more collected enough_fuel
        cases more with
        | zero => exact Gives.none.yields _
        | succ before =>
            rw [collectDatabases]
            refine (yields fuel enough_fuel).bind_gives _ ?_
            rintro ⟨loaded, count, length⟩ differs
            dsimp only at differs ⊢
            split
            · refine Gives.pure fun pairs => ?_
              cases pairs with
              | cons same _ => exact absurd same differs
            · refine (Gives.any _).bind fun others _ => Gives.pure fun pairs => ?_
              cases pairs with
              | cons same _ => exact absurd same differs

/-- Where more bytes lie behind a stored database than belong to it, they are read as another. -/
theorem yields_second (enough : stringLimit ≤ limit) {database : LoadedDatabase}
    (held : HeldDatabase database) (stored : DatabaseStored database) {saved : SavedDatabase}
    (generated : writtenDatabase database = some saved) {extra : Bytes} (behind : extra ≠ []) :
    ∃ turns, ∀ fuel more collected, turns ≤ fuel →
      Yields source limit
        (collectDatabases source fuel (collected + (databaseBytes saved ++ extra).length) more
          collected)
        (databaseBytes saved ++ extra) fun found => 2 ≤ found.length := by
  obtain ⟨loaded, turns, same, reads⟩ := reads_written source enough held stored generated
  refine ⟨turns, ?_⟩
  intro fuel more collected enough_fuel
  cases more with
  | zero => exact Gives.none.yields _
  | succ before =>
      have some_byte := List.length_pos_iff.mpr behind
      rw [collectDatabases, List.length_append]
      refine Yields.bind (reads fuel enough_fuel) ?_
      dsimp only
      rw [if_neg (by omega)]
      refine ((collectDatabases_nonempty source _ _ _ _).bind ?_).yields _
      intro others nonempty
      have positive := List.length_pos_iff.mpr nonempty
      exact Gives.pure (by rw [List.length_cons]; omega)

end Reading

/-! ## The file -/

section Files

variable {capacity : Nat} {state : ServerState} {saving : Saving} {extra padding : Bytes}

/-- Behind the passwords the block hands out the bytes of the databases. -/
theorem delivers_databases (bounded : capacity ≤ 65535)
    (short : (fileBytes saving ++ extra).length < capacity)
    (filled : (slice (fileBytes saving ++ extra) 0 capacity ++ padding).length = capacity) :
    ∃ standing : Standing
        (loaded (fileBytes saving ++ extra) padding capacity (startBytes saving).length),
      blockSource.Delivers stringLimit ⟨_, standing⟩
        ((saving.databases.map databaseBytes).flatten ++ extra) := by
  have limits : stringLimit = 1073741824 := rfl
  have sizes : UInt16.size = 65536 ∧ UInt32.size = 4294967296 := ⟨rfl, rfl⟩
  have bytes_eq : fileBytes saving ++ extra =
      startBytes saving ++ ((saving.databases.map databaseBytes).flatten ++ extra) := by
    rw [fileBytes_eq, List.append_assoc]
  have length : (fileBytes saving ++ extra).length = (startBytes saving).length +
      ((saving.databases.map databaseBytes).flatten ++ extra).length := by
    rw [bytes_eq, List.length_append]
  have at_ := @loaded_at (fileBytes saving ++ extra) capacity padding (startBytes saving).length
    (by omega) filled
  have standing := at_.standing (by omega) (by omega)
  refine ⟨standing, ?_⟩
  refine blockSource_delivers (by omega) (by omega) (by omega) ⟨_, standing⟩ at_ ?_ (by omega)
    (Or.inl (by omega))
  rw [slice, bytes_eq, List.drop_left, List.take_length]

/-- What is read is found. -/
theorem readFile_found {fuel fileSize : Nat} {databaseName : Bytes} {arguments : GenericArguments}
    (begun : arguments.position ≠ fileSize) {standing : Standing arguments}
    {found : List LoadedDatabase} {next : { arguments : GenericArguments // Standing arguments }}
    (collected : collectDatabases blockSource fuel fileSize fuel arguments.position
      ⟨arguments, standing⟩ = some (found, next)) :
    ∃ created, readFile fuel fileSize databaseName arguments = some ⟨found, created⟩ := by
  rw [readFile, if_neg begun, dif_pos standing, collected]
  simp only [Option.bind_eq_bind, Option.bind_some]
  split
  · exact ⟨_, rfl⟩
  · exact ⟨_, rfl⟩

theorem exists_mapM {α β : Type} {generate : α → Option β} {values : List α}
    (each : ∀ value ∈ values, ∃ result, generate value = some result) :
    ∃ results, values.mapM generate = some results := by
  induction values with
  | nil => exact ⟨[], rfl⟩
  | cons value rest inductionHypothesis =>
      obtain ⟨result, first⟩ := each value List.mem_cons_self
      obtain ⟨results, others⟩ :=
        inductionHypothesis fun other member => each other (List.mem_cons_of_mem _ member)
      exact ⟨result :: results, by rw [List.mapM_cons, first, others]; rfl⟩

theorem ServerState.some_database (state : ServerState) : state.databases ≠ [] := by
  obtain ⟨database, member, -⟩ := state.named
  exact List.ne_nil_of_mem member

theorem ServerState.saving_some (file : Bytes)
    (stored : ∀ database ∈ state.databases, DatabaseStored database) :
    ∃ saving, state.saving file = some saving := by
  obtain ⟨databases, generated⟩ := @exists_mapM _ _ writtenDatabase state.databases (by
    intro database member
    obtain ⟨records, -, -, generated, -⟩ := reads_database (ofList UInt8) (Nat.le_refl stringLimit)
      (state.held database member) (stored database member)
    exact ⟨_, by rw [writtenDatabase, generated]; rfl⟩)
  exact ⟨_, by rw [ServerState.saving, generated]; rfl⟩

/-- The databases of a state, as they are saved. -/
theorem ServerState.saving_databases {file : Bytes} (found : state.saving file = some saving) :
    state.databases.mapM writtenDatabase = some saving.databases := by
  rw [ServerState.saving, Option.map_eq_some_iff] at found
  obtain ⟨databases, generated, rfl⟩ := found
  exact generated

theorem saving_nonempty {file : Bytes} (found : state.saving file = some saving) :
    1 ≤ (saving.databases.map databaseBytes).flatten.length := by
  have count := length_mapM (ServerState.saving_databases found)
  have positive := List.length_pos_iff.mpr state.some_database
  cases databases : saving.databases with
  | nil =>
      rw [databases, List.length_nil] at count
      omega
  | cons saved rest =>
      have own := databaseBytes_nonempty saved
      rw [List.map_cons, List.flatten_cons, List.length_append]
      omega

/-- The start restores stored databases from a file of one block. -/
theorem restores_stored (bounded : capacity ≤ 65535) {file : Bytes}
    (found : state.saving file = some saving) (few : state.passwords.length ≤ 1)
    (stored : ∀ database ∈ state.databases, DatabaseStored database)
    (short : (fileBytes saving).length < capacity) : Restores capacity state (fileBytes saving) := by
  intro padding filled
  have generated := ServerState.saving_databases found
  have passwords := (length_saving found).1
  have some_bytes := saving_nonempty found
  obtain ⟨read, turns, same, reads⟩ := reads_databases blockSource (Nat.le_refl stringLimit)
    state.some_database state.held stored generated
  rw [← List.append_nil (fileBytes saving)] at short filled ⊢
  obtain ⟨standing, delivers⟩ := delivers_databases bounded short filled
  have size : (fileBytes saving ++ []).length =
      (startBytes saving).length + (saving.databases.map databaseBytes).flatten.length := by
    rw [List.append_nil, fileBytes_eq, List.length_append]
  refine ⟨max turns state.databases.length, ?_⟩
  intro fuel enough
  obtain ⟨next, ran, -⟩ := reads fuel fuel (startBytes saving).length (by omega) (by omega) _ _
    delivers
  rw [← size] at ran
  obtain ⟨created, readFile_eq⟩ :=
    @readFile_found fuel _ state.databaseName (loaded (fileBytes saving ++ []) padding capacity
      (startBytes saving).length) (by rw [size]; simp only [loaded]; omega) standing read next ran
  obtain ⟨serverAge, opens⟩ := @openDatabaseFd_start capacity saving fuel state.databaseName []
    padding (by rw [passwords]; omega) short filled
  rw [readFile_eq] at opens
  exact ⟨_, opens, passwords, same⟩

/-! ## The round trip -/

theorem Persistable.persists (bounded : capacity ≤ 65535) (persistable : Persistable capacity state)
    (file : Bytes) : Persists capacity file state := by
  have stored := persistable.stored
  refine ⟨?_, ?_⟩
  · intro database member
    apply BufferSuffices.of_filled
    intro entry isEntry _
    exact (filledLength_le_dataSize_iff (state.held database member).keyed entry.2).mpr
      (persistable.roomy database member entry isEntry)
  · obtain ⟨saving, found⟩ := ServerState.saving_some file stored
    obtain ⟨passwords, length, start, -, written⟩ := length_saving found
    have whole := written.mpr fun database member =>
      (stored database member).written (state.held database member)
    have within := persistable.within
    have short : (fileBytes saving).length < capacity := by omega
    have few := persistable.few
    exact ⟨saving, fileBytes saving, found,
      saveData_fits bounded (by rw [passwords]; exact few) short,
      restores_stored bounded found few stored short⟩

/-- What an opened file of one block holds, as the reader of the databases finds it. -/
theorem Restores.collected (bounded : capacity ≤ 65535)
    (some_bytes : 1 ≤ (saving.databases.map databaseBytes).flatten.length)
    (few : saving.passwords.length < 16)
    (short : (fileBytes saving ++ extra).length < capacity)
    (restores : Restores capacity state (fileBytes saving ++ extra)) :
    ∃ (padding : Bytes) (standing : Standing
        (loaded (fileBytes saving ++ extra) padding capacity (startBytes saving).length))
        (turns : Nat),
      blockSource.Delivers stringLimit ⟨_, standing⟩
        ((saving.databases.map databaseBytes).flatten ++ extra) ∧
      ∀ fuel, turns ≤ fuel → ∃ databases next,
        collectDatabases blockSource fuel (fileBytes saving ++ extra).length fuel
          (startBytes saving).length ⟨_, standing⟩ = some (databases, next) ∧
        databases.Forall₂ SameDatabase state.databases := by
  obtain ⟨padding, filled⟩ : ∃ padding : Bytes,
      (slice (fileBytes saving ++ extra) 0 capacity ++ padding).length = capacity := by
    refine ⟨List.replicate (capacity - (fileBytes saving ++ extra).length) 0, ?_⟩
    rw [slice, List.drop_zero, List.take_of_length_le (Nat.le_of_lt short), List.length_append,
      List.length_replicate]
    omega
  obtain ⟨standing, delivers⟩ := delivers_databases bounded short filled
  obtain ⟨turns, opens⟩ := restores padding filled
  refine ⟨padding, standing, turns, delivers, ?_⟩
  intro fuel enough
  obtain ⟨opened, opened_eq, -, same⟩ := opens fuel enough
  obtain ⟨serverAge, start⟩ := @openDatabaseFd_start capacity saving fuel state.databaseName extra
    padding few short filled
  rw [opened_eq, eq_comm, Option.map_eq_some_iff] at start
  obtain ⟨databases, read, rfl⟩ := start
  have begun : (loaded (fileBytes saving ++ extra) padding capacity
      (startBytes saving).length).position ≠ (fileBytes saving ++ extra).length := by
    rw [fileBytes_eq, List.length_append, List.length_append]
    simp only [loaded]
    omega
  obtain ⟨again, next, collected⟩ := readFile_some begun read
  exact ⟨databases.found, next, collected, same⟩

/-- No single database is restored from a file with bytes behind what it announces. -/
theorem not_restores_second (bounded : capacity ≤ 65535) {database : LoadedDatabase}
    (held : HeldDatabase database) (stored : DatabaseStored database) {saved : SavedDatabase}
    (generated : writtenDatabase database = some saved) (only : saving.databases = [saved])
    (few : saving.passwords.length < 16) (behind : extra ≠ [])
    (short : (fileBytes saving ++ extra).length < capacity)
    (single : state.databases.length = 1) :
    ¬Restores capacity state (fileBytes saving ++ extra) := by
  intro restores
  have bytes : (saving.databases.map databaseBytes).flatten = databaseBytes saved := by
    rw [only, List.map_singleton, List.flatten_singleton]
  have size : (fileBytes saving ++ extra).length =
      (startBytes saving).length + (databaseBytes saved ++ extra).length := by
    rw [fileBytes_eq, bytes, List.append_assoc, List.length_append]
  obtain ⟨padding, standing, turns, delivers, reads⟩ := restores.collected bounded
    (by rw [bytes]; exact databaseBytes_nonempty saved) few short
  obtain ⟨enough, yields⟩ :=
    yields_second blockSource (Nat.le_refl stringLimit) held stored generated behind
  obtain ⟨databases, next, collected, same⟩ := reads (max turns enough) (Nat.le_max_left _ _)
  rw [size] at collected
  have several := yields _ _ (startBytes saving).length (Nat.le_max_right _ _) _ [] databases next
    (by rw [List.append_nil, ← bytes]; exact delivers) collected
  have length := same.length_eq
  omega

theorem saveData_room {file : Bytes} {done : Bool}
    (saved : saveData always true capacity saving = some (done, file)) : 7 ≤ capacity := by
  simp only [saveData, Option.bind_eq_bind, Option.bind_eq_some_iff] at saved
  obtain ⟨headed, headers, -⟩ := saved
  have room := (saveHeaders_room headers).1
  omega

/-- Nothing of a whole block or more is restored. -/
theorem Restores.short {file : Bytes} (positive : 1 ≤ capacity)
    (restores : Restores capacity state file) : file.length < capacity := by
  obtain ⟨padding, filled⟩ : ∃ padding : Bytes,
      (slice file 0 capacity ++ padding).length = capacity := by
    refine ⟨List.replicate (capacity - (slice file 0 capacity).length) 0, ?_⟩
    have within : (slice file 0 capacity).length ≤ capacity := by
      rw [slice]
      exact List.length_take_le _ _
    rw [List.length_append, List.length_replicate]
    omega
  obtain ⟨turns, opens⟩ := restores padding filled
  obtain ⟨opened, opened_eq, -⟩ := opens turns (Nat.le_refl _)
  exact openDatabaseFd_short positive opened_eq

theorem Persists.persistable (bounded : capacity ≤ 65535) {file : Bytes}
    (persists : Persists capacity file state) : Persistable capacity state ∨
      2 ≤ state.passwords.length ∧ ∃ database ∈ state.databases, ¬Written database := by
  obtain ⟨buffers, saving, saved, found, ran, restores⟩ := persists
  obtain ⟨passwords, length, start, shorter, whole⟩ := length_saving found
  have room := saveData_room ran
  have short := Restores.short (by omega) restores
  obtain ⟨few, extra, rfl, extra_iff⟩ := saveData_one_block bounded ran short
  obtain ⟨padding, standing, turns, delivers, reads⟩ :=
    restores.collected bounded (saving_nonempty found) few short
  rw [passwords] at extra_iff
  have size : (fileBytes saving ++ extra).length = (startBytes saving).length +
      ((saving.databases.map databaseBytes).flatten ++ extra).length := by
    rw [fileBytes_eq, List.append_assoc, List.length_append]
  by_cases written : ∀ database ∈ state.databases, Written database
  · left
    obtain ⟨enough, yields⟩ := yields_databases blockSource (Nat.le_refl stringLimit)
      state.some_database state.held written (ServerState.saving_databases found) extra
    obtain ⟨databases, next, collected, same⟩ := reads (max turns enough) (Nat.le_max_left _ _)
    rw [size] at collected
    obtain ⟨stored, nothing⟩ := yields _ _ (startBytes saving).length (Nat.le_max_right _ _) _ []
      databases next (by rw [List.append_nil]; exact delivers) collected same
    have all := whole.mpr written
    rw [nothing, List.append_nil] at short
    refine ⟨extra_iff.mp nothing, by omega, stored, ?_⟩
    intro database member entry isEntry
    have held := state.held database member
    have entryStored := (stored database member).entries entry isEntry
    obtain ⟨bytes, -, -, generated, -⟩ := reads_record (ofList UInt8) (Nat.le_refl stringLimit)
      entryStored.1 (held.held entry isEntry) entryStored.2
    exact (filledLength_le_dataSize_iff held.keyed entry.2).mp
      ((buffers database member entry isEntry).2 (generateValue_length generated).2)
  · -- what is read would be longer than what is written
    obtain ⟨database, member, lost⟩ : ∃ database ∈ state.databases, ¬Written database := by
      simpa only [not_forall, exists_prop] using written
    refine Or.inr ⟨?_, database, member, lost⟩
    by_contra single
    have nothing := extra_iff.mpr (by omega)
    obtain ⟨databases, next, collected, same⟩ := reads turns (Nat.le_refl _)
    have loaded_length : (slice (fileBytes saving ++ extra) 0 capacity).length ≤
        (fileBytes saving ++ extra).length := by
      rw [slice, List.length_take, List.drop_zero]
      exact Nat.min_le_right _ _
    have inside : (startBytes saving).length + (databases.map databaseLength).sum ≤
        (fileBytes saving ++ extra).length :=
      (@collectDatabases_inside (fileBytes saving ++ extra) capacity turns turns ⟨_, standing⟩ next
        databases ⟨rfl, rfl, loaded_length⟩ collected).2
    have lengths := sum_length_eq databaseLength (fun _ _ => SameDatabase.length_eq) same
    have longer : (saving.databases.map databaseBytes).flatten.length ≠
        (state.databases.map databaseLength).sum :=
      fun same => lost (whole.mp same database member)
    rw [size, nothing, List.append_nil, lengths] at inside
    omega

/-- A persistable state persists whatever its file held before, and no other state does, as far as
it has at most one password or a record for each of its entries. With more passwords the file has
bytes behind the databases, which could stand for the records that are not there. -/
theorem persistence_round_trip (bounded : capacity ≤ 65535) (file : Bytes) (state : ServerState) :
    (Persistable capacity state → Persists capacity file state) ∧
      (state.passwords.length ≤ 1 ∨ (∀ database ∈ state.databases, Written database) →
        (Persists capacity file state ↔ Persistable capacity state)) := by
  refine ⟨fun persistable => persistable.persists bounded file, fun plain => ⟨fun persists => ?_,
    fun persistable => persistable.persists bounded file⟩⟩
  rcases persists.persistable bounded with persistable | ⟨several, database, member, lost⟩
  · exact persistable
  · rcases plain with few | written
    · exact absurd few (Nat.not_le_of_lt several)
    · exact absurd (written database member) lost

end Files

/-- A server with one key. -/
def singleState (passwords : List Password) (value : Value) (held : Held value) : ServerState where
  databaseName := [0x30]
  serverAge := 5
  passwords := passwords
  databases := [singleton value]
  held := List.forall_mem_singleton.mpr (singleton_held held)
  named := ⟨singleton value, List.mem_singleton_self _, rfl⟩

theorem stateLength_single (passwords : List Password) {value : Value} (held : Held value) :
    stateLength (singleState passwords value held) =
      7 + passwordCountByteCount passwords.length + 49 * passwords.length +
        (10 + recordLength ⟨[0x6e], value⟩) := by
  have name : textLength (singleton value).name.length = 2 := by
    show textLength 1 = 2
    decide
  rw [stateLength, singleState, List.map_singleton, List.sum_singleton, databaseLength, name,
    singleton_present, List.map_singleton, List.sum_singleton, entryLength]

theorem persistence_round_trip_single : Persists 512 []
    (singleState [samplePassword] (.list [.null, .bool true]) (by show 2 < UInt64.size; decide)) :=
  (persistence_round_trip (by decide) [] _).1
    { few := Nat.le_refl 1
      within := by
        rw [stateLength_single]
        decide +kernel
      stored := List.forall_mem_singleton.mpr ⟨by show 1 < stringLimit; decide, by
        rw [singleton_present]
        refine List.forall_mem_singleton.mpr ⟨by show 1 < stringLimit; decide, ?_⟩
        exact List.forall_mem_cons.mpr ⟨trivial, List.forall_mem_singleton.mpr trivial⟩⟩
      roomy := List.forall_mem_singleton.mpr (by
        rw [singleton_present]
        refine List.forall_mem_singleton.mpr ⟨_, List.mem_singleton_self _, ?_⟩
        decide +kernel) }

/-- Two passwords, a file of a whole block, and a null do not come back. -/
theorem persistence_lost :
    ¬Persists 512 [] (singleState [samplePassword, samplePassword] (.scalar (.bool true)) trivial) ∧
      ¬Persists 512 [] (singleState [] (.scalar (.str (List.replicate 512 0x61))) trivial) ∧
      ¬Persists 512 [] (singleState [] (.scalar .null) trivial) := by
  refine ⟨fun persists => ?_, fun persists => ?_, fun persists => ?_⟩
  · rcases persists.persistable (by decide) with persistable | ⟨-, database, member, lost⟩
    · exact absurd persistable.few (by decide)
    · rw [List.mem_singleton.mp member, Written, singleton_present, List.forall_mem_singleton]
        at lost
      exact lost (by decide)
  · rcases persists.persistable (by decide) with persistable | ⟨several, -⟩
    · have length := @stateLength_single [] (.scalar (.str (List.replicate 512 0x61))) trivial
      exact absurd (length.symm.trans_lt persistable.within) (by decide +kernel)
    · exact absurd several (by decide)
  · rcases persists.persistable (by decide) with persistable | ⟨several, -⟩
    · have stored := persistable.stored _ (List.mem_singleton_self _)
      have entries := stored.entries
      rw [singleton_present, List.forall_mem_singleton] at entries
      exact entries.2
    · exact absurd several (by decide)

end TellyDB.Database.Codec
