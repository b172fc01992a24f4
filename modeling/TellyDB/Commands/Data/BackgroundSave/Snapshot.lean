import TellyDB.Commands.Data.BackgroundSave.Alone

/-!
Owns what the thread of BGSAVE writes while commands run: where it reads what was there at one
instant, its file is the one that `save_data` would have written at this instant.
-/

namespace TellyDB.Commands.Data.BackgroundSave

open Resp Lib Interleaving Transition SlotArray TellyDB.Database.File
open Utils.HashTable (present)
open TellyDB.Database.Codec
open TellyDB.Database.Read (LoadedDatabase)

theorem exists_generated {α β : Type} {generate : α → Option β} {values : List α}
    {results : List β} (generated : values.mapM generate = some results) {result : β}
    (member : result ∈ results) : ∃ value ∈ values, generate value = some result := by
  induction values generalizing results with
  | nil =>
      cases generated
      exact absurd member List.not_mem_nil
  | cons value rest inductionHypothesis =>
      rw [List.mapM_cons, Option.bind_eq_bind, Option.bind_eq_some_iff] at generated
      obtain ⟨first, own, generated⟩ := generated
      rw [Option.bind_eq_bind, Option.bind_eq_some_iff] at generated
      obtain ⟨others, generatedRest, made⟩ := generated
      cases made
      rcases List.mem_cons.mp member with rfl | later
      · exact ⟨value, List.mem_cons_self, own⟩
      · obtain ⟨other, isMember, same⟩ := inductionHypothesis generatedRest later
        exact ⟨other, List.mem_cons_of_mem _ isMember, same⟩

/-- A database announces as many records as are written of it. -/
theorem written_count {database : LoadedDatabase} (held : HeldDatabase database)
    {saved : SavedDatabase} (written : writtenDatabase database = some saved) :
    saved.count = saved.records.length := by
  obtain ⟨records, generated, rfl⟩ := Option.map_eq_some_iff.mp written
  have counted := held.reachable.roomy.wellFormed.counted
  exact counted.trans (length_mapM generated).symm

/-- Databases that can be saved: what is written of them, where the thread begins, and the file
that a save of them would leave. -/
theorem Savable.leads {capacity : Nat} (bounded : capacity ≤ 65535) {found : Found}
    {databases : Databases} {state : ServerState}
    (savable : Savable capacity found databases state) :
    ∃ saved final, (databases.map savedDatabase).mapM writtenDatabase = some saved ∧
      Leads databases saved found.file final (start capacity found) ∧
      HoldsDatabases capacity found databases (finish found.file final) := by
  obtain ⟨saving, whole⟩ := ServerState.saving_some found.file savable.stored
  have generated := ServerState.saving_databases whole
  obtain ⟨passwords, length, start_length, -, written⟩ := length_saving whole
  have complete := written.mpr fun database member =>
    (savable.stored database member).written (state.held database member)
  have within := savable.within
  have short : (fileBytes saving).length < capacity := by omega
  have few := savable.few
  have saves := saveData_fits bounded (by rw [passwords]; exact few) short
  have restores := restores_stored bounded whole few savable.stored short
  obtain ⟨saved, own, made⟩ := Option.map_eq_some_iff.mp whole
  have same : saving = ⟨found.serverAge, found.passwords, saved, found.file⟩ := by
    rw [← made, savable.age, savable.passwords]
  subst same
  obtain ⟨started, final, begun, dumped, finished⟩ := start_eq saves
  refine ⟨saved, final, ?_, ?_, state, saved, savable.passwords, savable.databases, finished, ?_,
    ?_⟩
  · rw [← savable.databases]
    exact generated
  · rw [begun]
    exact dumped
  · intro database member
    obtain ⟨origin, isMember, written⟩ := exists_generated own member
    exact written_count (state.held origin isMember) written
  · rw [finished]
    exact restores

/-! ## A SET in the course of a save -/

/-- SET n true. -/
def setTrue : Request where
  command := some (.key .set)
  entry :=
    { client := some .resp3
      args := [⟨[0x6e], [0]⟩, ⟨[0x74, 0x72, 0x75, 0x65], [0]⟩]
      permissions := TellyDB.Server.Permission.all }
  index := 0
  clock := none

def newFound : Found := ⟨5, [], []⟩

/-- A new server. -/
def emptyDatabase : Database := allocateDatabase [0x30]

/-- What the SET leaves. -/
def oneKey : Database :=
  ⟨[0x30], emptyDatabase.data.insert [0x6e] ⟨.scalar (.bool true), none⟩⟩

theorem setTrue_eq : Data.step Mpf.unused [emptyDatabase] setTrue = some [oneKey] := rfl

theorem oneKey_elements : oneKey.data.table.elements =
    Function.update (fun _ => none) (Utils.stringHash [0x6e] % 1024)
      (some ([0x6e], ⟨.scalar (.bool true), none⟩)) := rfl

theorem oneKey_saved : savedDatabase oneKey =
    TellyDB.Database.Codec.singleton (.scalar (.bool true)) := by
  have elements : (fun slot => (oneKey.data.table.elements slot).map savedEntry) =
      (TellyDB.Database.Codec.singleton (.scalar (.bool true))).data.elements := by
    funext slot
    rw [oneKey_elements]
    show _ = Function.update (fun _ => none) (Utils.stringHash [0x6e] % 1024)
      (some ([0x6e], (⟨[0x6e], .scalar (.bool true)⟩ : TellyDB.Database.KeyValue))) slot
    by_cases same : slot = Utils.stringHash [0x6e] % 1024
    · rw [same, Function.update_self, Function.update_self]
      rfl
    · rw [Function.update_of_ne same, Function.update_of_ne same]
      rfl
  rw [savedDatabase, elements]
  rfl

theorem emptyDatabase_present : (savedDatabase emptyDatabase).data.present = [] :=
  entries_free _

theorem emptyDatabase_held : HeldDatabase (savedDatabase emptyDatabase) where
  reachable := .create (by decide)
  small := by
    show 0 < UInt64.size
    decide
  keyed := by
    rw [emptyDatabase_present]
    exact fun _ member => absurd member List.not_mem_nil
  held := by
    rw [emptyDatabase_present]
    exact fun _ member => absurd member List.not_mem_nil

theorem oneKey_present : (savedDatabase oneKey).data.present =
    [([0x6e], ⟨[0x6e], .scalar (.bool true)⟩)] := by
  rw [oneKey_saved, singleton_present]

theorem oneKey_dumpable : Dumpable [oneKey] where
  walks := by
    rw [List.forall_mem_singleton]
    intro slot _ element held
    rw [oneKey_elements, Function.update_apply] at held
    split at held
    · cases held
      rfl
    · cases held
  fits := by
    rw [List.forall_mem_singleton, oneKey_present, List.forall_mem_singleton,
      filledLength_le_dataSize_iff, oneKey_present]
    · exact ⟨_, List.mem_singleton_self _, by decide +kernel⟩
    · rw [oneKey_present]
      exact List.forall_mem_singleton.mpr rfl

theorem oneKey_savable : Savable 512 newFound [oneKey]
    (singleState [] (.scalar (.bool true)) trivial) where
  age := rfl
  passwords := rfl
  databases := by
    rw [List.map_singleton, oneKey_saved]
    rfl
  few := Nat.zero_le 1
  within := by
    have length := @stateLength_single [] (.scalar (.bool true)) trivial
    exact length.trans_lt (by decide +kernel)
  stored := List.forall_mem_singleton.mpr ⟨by show 1 < stringLimit; decide, by
    rw [singleton_present]
    exact List.forall_mem_singleton.mpr ⟨by show 1 < stringLimit; decide, trivial⟩⟩

theorem emptyDatabase_stored : DatabaseStored (savedDatabase emptyDatabase) where
  name := by
    show 1 < stringLimit
    decide
  entries := by
    rw [emptyDatabase_present]
    exact fun _ member => absurd member List.not_mem_nil

theorem emptyDatabase_written :
    writtenDatabase (savedDatabase emptyDatabase) = some ⟨[0x30], 0, []⟩ := by
  rw [writtenDatabase, databaseRecords, emptyDatabase_present]
  rfl

/-- The record of n. -/
def keyRecord : Bytes := [1, 0x6e, 5, 1]

/-- The file in which the header announces so many records, and the record of n lies. -/
def keyFile (count : Nat) : Saving := ⟨5, [], [⟨[0x30], count, [keyRecord]⟩], []⟩

/-- The file of the new server. -/
def headerFile : Saving := ⟨5, [], [⟨[0x30], 0, []⟩], []⟩

theorem saveData_keyFile (count : Nat) :
    saveData always true 512 (keyFile count) = some (true, fileBytes (keyFile count)) := by
  have few : (keyFile count).passwords.length ≤ 1 := Nat.zero_le 1
  apply saveData_fits (by decide) few
  have length : (fileBytes (keyFile count)).length = 21 := by
    simp only [fileBytes, keyFile, authorizationBytes, databaseBytes, headerBytes, List.map_cons,
      List.map_nil, List.flatten_cons, List.flatten_nil, List.length_append, List.length_cons,
      Positional.length_littleEndian]
    decide
  omega

theorem oneKey_records : databaseRecords (savedDatabase oneKey) = some [keyRecord] := by
  rw [databaseRecords, oneKey_present]
  decide +kernel

theorem oneKey_written :
    writtenDatabase (savedDatabase oneKey) = some ⟨[0x30], 1, [keyRecord]⟩ := by
  rw [writtenDatabase, oneKey_records]
  rfl

/-- Behind the SET nothing is read that was not there when it was done. -/
theorem setTrue_agrees {thread : Thread} (sized : Sized [oneKey] thread) (steps : Nat) :
    Guarded (step Mpf.unused []) (OnReads (Agrees [oneKey])) ⟨[emptyDatabase], thread⟩
      (.change setTrue :: List.replicate steps .read) :=
  guarded_change setTrue_eq (guarded_alone oneKey_dumpable sized steps)

/-! ## Snapshots -/

section Runs

variable {mpf : Mpf} {capacity : Nat} {found : Found} {databases : Databases}

/-- Where the thread reads nothing but what was there at one instant of the save, and a file of
one block can hold the databases of this instant, it is their snapshot. -/
theorem background_save_snapshot (bounded : capacity ≤ 65535) {turns before : List Turn}
    {instant : Server} {state : ServerState} (isPrefix : before <+: turns)
    (ran : run (step mpf found.file) (begin capacity found databases) before = some instant)
    (during : instant.reader.ended = false) (savable : Savable capacity found instant.store state)
    (agrees : Guarded (step mpf found.file) (OnReads (Agrees instant.store))
      (begin capacity found databases) turns) :
    TakesSnapshot mpf capacity found databases turns := by
  obtain ⟨saved, final, generated, leads, holds⟩ := savable.leads bounded
  have starts : InList databases (start capacity found) := by
    apply InList.goOn
    exact fun _ => trivial
  intro first isFirst reached ranFirst
  obtain ⟨others, rfl⟩ := isFirst
  have led := leads_run generated leads starts (guarded_take agrees) ranFirst
  refine ⟨?_, ⟨_, save_ends found.file _ _ (Nat.le_refl _)⟩, ?_⟩
  · intro lost
    rw [lost] at led
    exact led
  · intro file done
    rw [done] at led
    cases led
    refine ⟨before, instant, ?_, ran, during, holds⟩
    rcases List.prefix_or_prefix_of_prefix isPrefix (List.prefix_append first others) with
      earlier | later
    · exact earlier
    · -- the thread has not ended at the instant
      obtain ⟨more, rfl⟩ := later
      rw [run_append, ranFirst, Option.bind_some] at ran
      have same := ended_stays (by rw [done]; rfl) ran
      rw [same, done] at during
      cases during

end Runs

theorem background_save_snapshot_set : TakesSnapshot Mpf.unused 512 newFound [emptyDatabase]
    (.change setTrue :: List.replicate 2052 .read) := by
  obtain ⟨state, -, begun, -, -⟩ := @start_eq 512 newFound _ _ (saveData_keyFile 1)
  have ran : run (step Mpf.unused []) (begin 512 newFound [emptyDatabase]) [.change setTrue] =
      some ⟨[oneKey], .saving 0 .node state⟩ := by
    rw [begin, begun]
    exact run_change setTrue_eq _ []
  have agrees : Guarded (step Mpf.unused []) (OnReads (Agrees [oneKey]))
      (begin 512 newFound [emptyDatabase]) (.change setTrue :: List.replicate 2052 .read) := by
    have sized : Sized [oneKey] (.saving 0 .node state) := trivial
    rw [begin, begun]
    exact setTrue_agrees sized 2052
  have first : [Turn.change setTrue] <+: Turn.change setTrue :: List.replicate 2052 Turn.read :=
    List.cons_prefix_cons.mpr ⟨rfl, List.nil_prefix⟩
  exact background_save_snapshot (by decide) first ran rfl oneKey_savable agrees

/-- A key set between the two steps is dumped behind the header that does not count it. -/
theorem torn_reaches : run (step Mpf.unused []) (begin 512 newFound [emptyDatabase])
    (.read :: .change setTrue :: List.replicate 2051 .read) =
      some ⟨[oneKey], .done (fileBytes (keyFile 0))⟩ := by
  obtain ⟨state, final, begun, dumped, finished⟩ :=
    @start_eq 512 newFound _ _ (saveData_keyFile 0)
  have records : (entriesFrom oneKey 0).mapM (fun entry => generateValue entry.2) =
      some [keyRecord] := by
    rw [entriesFrom_zero]
    exact oneKey_records
  have whole := saveDatabase_eq state emptyDatabase [keyRecord]
  change saveDatabase always state ⟨[0x30], 0, [keyRecord]⟩ = _ at whole
  rw [saveDatabases, whole, Option.bind_eq_bind, Option.bind_eq_some_iff] at dumped
  obtain ⟨after, saves, rest⟩ := dumped
  rw [Option.bind_eq_some_iff] at saves
  obtain ⟨next, stored, saves⟩ := saves
  rw [Option.bind_eq_some_iff] at saves
  obtain ⟨reached, dumped, saves⟩ := saves
  split at saves
  · cases saves
  · next kept =>
      cases saves
      have generated : ([oneKey].map savedDatabase).mapM writtenDatabase =
          some [⟨[0x30], 1, [keyRecord]⟩] := by
        rw [List.map_singleton, List.mapM_cons, oneKey_written]
        rfl
      have leads : Leads [oneKey] [⟨[0x30], 1, [keyRecord]⟩] [] final
          (.saving 0 (.sizing 0 0) next) :=
        ⟨oneKey, rfl, [keyRecord], after, records, dumped, Bool.eq_false_iff.mpr kept, rest⟩
      have slots : slotsAt [oneKey] 0 = 1024 := rfl
      have enough : stepsLeft [oneKey] (.saving 0 (.sizing 0 0) next) ≤ 2051 := by
        rw [stepsLeft, slots]
        decide
      have header : save [] [emptyDatabase] (.saving 0 .node state) =
          .saving 0 (.sizing 0 0) next := by
        rw [@save_node _ _ _ 0 emptyDatabase rfl, stored]
        rfl
      rw [← finished, begin, begun, step, run_read, header, run_change setTrue_eq]
      refine reads_finish generated oneKey_dumpable leads (Nat.zero_lt_one) ?_ enough
      intro database held
      exact ⟨Nat.zero_le _, rfl⟩

/-- The entry count is read, n is set, and then its record is written behind the count of zero. -/
theorem background_save_torn : ¬TakesSnapshot Mpf.unused 512 newFound [emptyDatabase]
    (.read :: .change setTrue :: List.replicate 2051 .read) := by
  intro takes
  obtain ⟨-, -, holds⟩ := takes _ (List.prefix_refl _) _ torn_reaches
  obtain ⟨before, instant, isPrefix, ran, -, state, saved, -, databases, -, -, restores⟩ :=
    holds _ rfl
  have kept : ∀ label, Turn.change label ∈ before → ∀ store next : Databases, store.length = 1 →
      Data.step Mpf.unused store label = some next → next.length = 1 := by
    intro label member store next single stepped
    have asked : label.command = some (.key .set) := by
      rcases List.mem_cons.mp (isPrefix.subset member) with same | later
      · cases same
      · rcases List.mem_cons.mp later with same | reads
        · cases same
          rfl
        · cases List.eq_of_mem_replicate reads
    rw [step_key_length asked stepped, single]
  have single := store_invariant kept rfl ran
  have bytes : fileBytes (keyFile 0) = fileBytes headerFile ++ keyRecord := by decide +kernel
  have short : (fileBytes headerFile ++ keyRecord).length < 512 := by decide +kernel
  have few : headerFile.passwords.length < 16 := by decide
  have length : state.databases.length = 1 := by rw [databases, List.length_map, single]
  rw [bytes] at restores
  exact not_restores_second (by decide) emptyDatabase_held emptyDatabase_stored
    emptyDatabase_written rfl few (List.cons_ne_nil _ _) short length restores

end TellyDB.Commands.Data.BackgroundSave
