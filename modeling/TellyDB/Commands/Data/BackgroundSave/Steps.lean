import TellyDB.Commands.Data.BackgroundSave
import TellyDB.Commands.Data.Confidentiality

/-!
Owns the steps of the thread of BGSAVE: a step that reads what was there at one instant keeps what
the thread leads to, and no command takes its database away.
-/

namespace TellyDB.Commands.Data.BackgroundSave

open Resp Lib Interleaving Transition SlotArray TellyDB.Database.File
open Utils (HashTable)
open Utils.HashTable (present)
open TellyDB.Database.Codec
open TellyDB.Database.Keyspace (Value KeyValue)
open TellyDB.Database.Read (LoadedDatabase)

/-! ## What is left to dump -/

/-- The entries from a slot on. -/
def entriesFrom (database : Database) (slot : Nat) : List (Bytes × TellyDB.Database.KeyValue) :=
  (List.range' slot (database.data.capacity - slot)).filterMap
    (savedDatabase database).data.elements

theorem entriesFrom_zero (database : Database) :
    entriesFrom database 0 = (savedDatabase database).data.present := by
  rw [entriesFrom, present, entries, List.range_eq_range']
  rfl

theorem entriesFrom_succ (database : Database) (slot : Nat) :
    entriesFrom database slot =
      (slotAt database slot).toList ++ entriesFrom database (slot + 1) := by
  by_cases inside : slot < database.data.capacity
  · obtain ⟨behind, length⟩ : ∃ behind, database.data.capacity - slot = behind + 1 :=
      ⟨database.data.capacity - slot - 1, by omega⟩
    have next : database.data.capacity - (slot + 1) = behind := by omega
    have held : slotAt database slot = (savedDatabase database).data.elements slot := if_pos inside
    rw [entriesFrom, entriesFrom, length, next, List.range'_succ, List.filterMap_cons, held]
    cases (savedDatabase database).data.elements slot <;> rfl
  · rw [entriesFrom, entriesFrom, slotAt, if_neg inside,
      show database.data.capacity - slot = 0 from by omega,
      show database.data.capacity - (slot + 1) = 0 from by omega]
    rfl

/-- Free slots are left without an entry. -/
theorem entriesFrom_free {database : Database} {slot : Nat}
    (free : ∀ later, slot ≤ later → slotAt database later = none) :
    entriesFrom database slot = [] := by
  rw [entriesFrom, List.filterMap_eq_nil_iff]
  intro later member
  have bounds := List.mem_range'_1.mp member
  have nothing := free later bounds.1
  rwa [slotAt, if_pos (by omega)] at nothing

/-- The records of these entries lead to the final state, the databases behind them too. -/
def DumpsTo (final : State) (later : List SavedDatabase)
    (left : List (Bytes × TellyDB.Database.KeyValue)) (state : State) : Prop :=
  ∃ records after, left.mapM (fun entry => generateValue entry.2) = some records ∧
    dumpRecords always state records = some after ∧ after.freed = false ∧
    saveDatabases always after later = some final

theorem dumpsTo_nil {final state : State} {later : List SavedDatabase} :
    DumpsTo final later [] state ↔
      state.freed = false ∧ saveDatabases always state later = some final := by
  constructor
  · rintro ⟨records, after, generated, dumped, kept, rest⟩
    cases generated
    cases dumped
    exact ⟨kept, rest⟩
  · rintro ⟨kept, rest⟩
    exact ⟨[], state, rfl, rfl, kept, rest⟩

theorem dumpsTo_cons {final state : State} {later : List SavedDatabase}
    {entry : Bytes × TellyDB.Database.KeyValue}
    {rest : List (Bytes × TellyDB.Database.KeyValue)}
    (dumps : DumpsTo final later (entry :: rest) state) :
    ∃ record next, generateValue entry.2 = some record ∧
      dumpRecord always state record = some next ∧ DumpsTo final later rest next := by
  obtain ⟨records, after, generated, dumped, kept, others⟩ := dumps
  rw [List.mapM_cons, Option.bind_eq_bind, Option.bind_eq_some_iff] at generated
  obtain ⟨record, first, generated⟩ := generated
  rw [Option.bind_eq_bind, Option.bind_eq_some_iff] at generated
  obtain ⟨more, generatedRest, made⟩ := generated
  cases made
  rw [dumpRecords, Option.bind_eq_bind, Option.bind_eq_some_iff] at dumped
  obtain ⟨next, dumpedFirst, dumpedRest⟩ := dumped
  exact ⟨record, next, first, dumpedFirst, more, after, generatedRest, dumpedRest, kept, others⟩

/-! ## The header -/

/-- A turn of `save_data` over the databases: the header, then the records. -/
theorem saveDatabase_eq (state : State) (database : Database) (records : List Bytes) :
    saveDatabase always state
        ⟨(savedDatabase database).name, (savedDatabase database).data.count, records⟩ =
      (storeHeader state database).bind fun state =>
        (dumpRecords always state records).bind fun state =>
          if state.freed then none else some state := by
  simp only [saveDatabase, storeHeader, savedDatabase, Option.bind_eq_bind, Option.bind_assoc,
    Option.bind_some]

theorem storeHeader_congr (state : State) {now former : Database}
    (same : header now = header former) : storeHeader state now = storeHeader state former := by
  have names := congrArg Prod.fst same
  have counts := congrArg Prod.snd same
  change now.name = former.name at names
  change now.data.count = former.data.count at counts
  rw [storeHeader, storeHeader, names, counts]

/-- What is written of a database lies at its place. -/
theorem written_at {databases : List LoadedDatabase} {saved : List SavedDatabase}
    (generated : databases.mapM writtenDatabase = some saved) {index : Nat}
    {database : LoadedDatabase} (held : databases[index]? = some database) :
    ∃ records, databaseRecords database = some records ∧
      saved.drop index =
        ⟨database.name, database.data.count, records⟩ :: saved.drop (index + 1) := by
  induction databases generalizing saved index with
  | nil => cases held
  | cons first rest inductionHypothesis =>
      rw [List.mapM_cons, Option.bind_eq_bind, Option.bind_eq_some_iff] at generated
      obtain ⟨written, own, generated⟩ := generated
      rw [Option.bind_eq_bind, Option.bind_eq_some_iff] at generated
      obtain ⟨others, generatedRest, made⟩ := generated
      cases made
      cases index with
      | zero =>
          cases held
          obtain ⟨records, generatedRecords, rfl⟩ := Option.map_eq_some_iff.mp own
          exact ⟨records, generatedRecords, rfl⟩
      | succ index => exact inductionHypothesis generatedRest held

/-! ## The invariant -/

/-- What the thread has still to do leads to the final state, done over the databases of the
instant. -/
def Leads (instant : Databases) (saved : List SavedDatabase) (file : Bytes) (final : State) :
    Thread → Prop
  | .saving index .node state => saveDatabases always state (saved.drop index) = some final
  | .saving index (.sizing _ _) state => ∃ database, instant[index]? = some database ∧
      DumpsTo final (saved.drop (index + 1)) (entriesFrom database 0) state
  | .saving index (.dumping slot _) state => ∃ database, instant[index]? = some database ∧
      DumpsTo final (saved.drop (index + 1)) (entriesFrom database slot) state
  | .done bytes => bytes = finish file final
  | .lost => False

section Steps

variable {instant now : Databases} {saved : List SavedDatabase} {file : Bytes} {final state : State}
  {index slot dataSize : Nat} {database former : Database}

theorem save_end (gone : now[index]? = none) :
    save file now (.saving index .node state) = .done (finish file state) := by
  simp only [save, gone]

theorem save_node (held : now[index]? = some database) :
    save file now (.saving index .node state) =
      .goOn index (.sizing 0 0) (storeHeader state database) := by
  simp only [save, held]

theorem save_sizing (held : now[index]? = some database) :
    save file now (.saving index (.sizing slot dataSize) state) =
      sizeSlot database index slot dataSize state := by
  simp only [save, held]

theorem save_dumping (held : now[index]? = some database) :
    save file now (.saving index (.dumping slot dataSize) state) =
      dumpSlot database index slot dataSize state := by
  simp only [save, held]

/-- A turn over a database, or the end of the databases. -/
theorem Leads.node (generated : (instant.map savedDatabase).mapM writtenDatabase = some saved)
    (leads : Leads instant saved file final (.saving index .node state))
    (agrees : Agrees instant now (.saving index .node state)) :
    Leads instant saved file final (save file now (.saving index .node state)) := by
  change saveDatabases always state (saved.drop index) = some final at leads
  change now[index]?.map header = instant[index]?.map header at agrees
  cases live : now[index]? with
  | none =>
      rw [live, Option.map_none, eq_comm, Option.map_eq_none_iff, List.getElem?_eq_none_iff]
        at agrees
      have length := length_mapM generated
      rw [List.length_map] at length
      rw [List.drop_eq_nil_of_le (by omega)] at leads
      cases leads
      rw [save_end live]
      rfl
  | some database =>
      rw [live, Option.map_some, eq_comm, Option.map_eq_some_iff] at agrees
      obtain ⟨former, held, same⟩ := agrees
      obtain ⟨records, generatedRecords, places⟩ := written_at generated
        (show (instant.map savedDatabase)[index]? = some (savedDatabase former) by
          rw [List.getElem?_map, held, Option.map_some])
      rw [places, saveDatabases, saveDatabase_eq state former records, Option.bind_eq_bind,
        Option.bind_eq_some_iff] at leads
      obtain ⟨after, saves, leads⟩ := leads
      rw [Option.bind_eq_some_iff] at saves
      obtain ⟨next, stored, saves⟩ := saves
      rw [Option.bind_eq_some_iff] at saves
      obtain ⟨reached, dumped, saves⟩ := saves
      rw [save_node live, storeHeader_congr state same.symm, stored]
      refine ⟨former, held, records, reached, ?_, dumped, ?_⟩
      · rw [entriesFrom_zero]
        exact generatedRecords
      · split at saves
        · cases saves
        · next kept =>
            cases saves
            exact ⟨Bool.eq_false_iff.mpr kept, leads⟩

/-- Sizing a slot dumps nothing. -/
theorem Leads.sizing
    (leads : Leads instant saved file final (.saving index (.sizing slot dataSize) state))
    (live : now[index]? = some database)
    (agrees : Agrees instant now (.saving index (.sizing slot dataSize) state)) :
    Leads instant saved file final
      (save file now (.saving index (.sizing slot dataSize) state)) := by
  obtain ⟨former, held, dumps⟩ := leads
  have right := agrees former held database live
  rw [save_sizing live, sizeSlot]
  rw [SizesRight] at right
  split
  · next inside =>
      rw [if_pos inside] at right
      split
      · exact ⟨former, held, dumps⟩
      · next element present =>
          rw [if_pos (right element present)]
          exact ⟨former, held, dumps⟩
  · next beyond =>
      rw [if_neg beyond] at right
      split
      · next nothing =>
          have free : entriesFrom former 0 = [] :=
            entriesFrom_free fun later _ => right nothing later
          rw [free, dumpsTo_nil] at dumps
          exact dumps.2
      · exact ⟨former, held, dumps⟩

/-- A slot is dumped as it was. -/
theorem Leads.dumping
    (leads : Leads instant saved file final (.saving index (.dumping slot dataSize) state))
    (live : now[index]? = some database)
    (agrees : Agrees instant now (.saving index (.dumping slot dataSize) state)) :
    Leads instant saved file final
      (save file now (.saving index (.dumping slot dataSize) state)) := by
  obtain ⟨former, held, dumps⟩ := leads
  have right := agrees former held database live
  rw [save_dumping live, dumpSlot]
  rw [DumpsRight] at right
  split
  · next inside =>
      rw [if_pos inside] at right
      obtain ⟨same, fits⟩ := right
      rw [entriesFrom_succ, ← same, slotAt, if_pos inside] at dumps
      split
      · next free =>
          rw [free] at dumps
          exact ⟨former, held, dumps⟩
      · next element present =>
          rw [present, Option.map_some, Option.toList_some, List.singleton_append] at dumps
          obtain ⟨record, next, generated, dumped, rest⟩ := dumpsTo_cons dumps
          rw [dumpIntoFile, if_pos (fits element present), generated, Option.bind_eq_bind,
            Option.bind_some, dumped]
          exact ⟨former, held, rest⟩
  · next beyond =>
      rw [if_neg beyond] at right
      rw [entriesFrom_free right, dumpsTo_nil] at dumps
      exact dumps.2

/-- A database that the thread has come to is in the list. -/
def InList (databases : Databases) : Thread → Prop
  | .saving index (.sizing _ _) _ | .saving index (.dumping _ _) _ => index < databases.length
  | .saving _ .node _ | .done _ | .lost => True

theorem InList.goOn {stage : Stage} (inside : ∀ state, InList now (.saving index stage state))
    (next : Option State) : InList now (.goOn index stage next) := by
  cases next with
  | none => trivial
  | some state => exact inside state

theorem InList.save {thread : Thread} (inList : InList now thread) :
    InList now (save file now thread) := by
  cases thread with
  | done bytes => trivial
  | lost => trivial
  | saving index stage state =>
      cases live : now[index]? with
      | none =>
          cases stage with
          | node =>
              rw [save_end live]
              trivial
          | sizing slot dataSize =>
              exact absurd (List.getElem?_eq_none_iff.mp live) (Nat.not_le_of_lt inList)
          | dumping slot dataSize =>
              exact absurd (List.getElem?_eq_none_iff.mp live) (Nat.not_le_of_lt inList)
      | some database =>
          have inside := (List.getElem?_eq_some_iff.mp live).1
          cases stage with
          | node =>
              rw [save_node live]
              apply InList.goOn
              exact fun _ => inside
          | sizing slot dataSize =>
              rw [save_sizing live, sizeSlot]
              split
              · split
                · exact inside
                · split
                  · exact inside
                  · trivial
              · split
                · trivial
                · exact inside
          | dumping slot dataSize =>
              rw [save_dumping live, dumpSlot]
              split
              · split
                · exact inside
                · apply InList.goOn
                  exact fun _ => inside
              · trivial

theorem InList.mono {more : Databases} {thread : Thread} (inList : InList now thread)
    (length : now.length ≤ more.length) : InList more thread := by
  cases thread with
  | done bytes => trivial
  | lost => trivial
  | saving index stage state =>
      cases stage with
      | node => trivial
      | sizing slot dataSize => exact Nat.lt_of_lt_of_le inList length
      | dumping slot dataSize => exact Nat.lt_of_lt_of_le inList length

/-- A step that reads what was there at the instant leads where it did. -/
theorem Leads.save (generated : (instant.map savedDatabase).mapM writtenDatabase = some saved)
    {thread : Thread} (leads : Leads instant saved file final thread) (inList : InList now thread)
    (agrees : Agrees instant now thread) :
    Leads instant saved file final (save file now thread) := by
  cases thread with
  | done bytes => exact leads
  | lost => exact leads
  | saving index stage state =>
      cases stage with
      | node => exact leads.node generated agrees
      | sizing slot dataSize => exact leads.sizing (List.getElem?_eq_getElem inList) agrees
      | dumping slot dataSize => exact leads.dumping (List.getElem?_eq_getElem inList) agrees

end Steps

/-- A command that takes keys changes no more than one of the databases. -/
theorem step_key_length {mpf : Mpf} {databases after : Databases} {request : Request}
    {command : KeyCommand} (asked : request.command = some (.key command))
    (stepped : Data.step mpf databases request = some after) :
    after.length = databases.length := by
  simp only [Data.step, asked] at stepped
  obtain ⟨outcome, ran, rfl⟩ := Option.map_eq_some_iff.mp stepped
  by_cases permitted : request.entry.permissions &&& command.permissions = command.permissions
  · rw [execute_key permitted, Option.bind_eq_some_iff] at ran
    obtain ⟨database, held, ran⟩ := ran
    obtain ⟨⟨data, reply⟩, ran, rfl⟩ := Option.map_eq_some_iff.mp ran
    exact List.length_modify _ _ _
  · rw [execute_denied permitted ran]

/-- No command takes a database out of the list. -/
theorem step_length {mpf : Mpf} {databases after : Databases} {request : Request}
    (stepped : Data.step mpf databases request = some after) :
    databases.length ≤ after.length := by
  have whole := stepped
  rw [Data.step] at stepped
  split at stepped
  · cases stepped
    exact Nat.le_refl _
  · next command asked =>
      obtain ⟨outcome, ran, rfl⟩ := Option.map_eq_some_iff.mp stepped
      by_cases permitted : request.entry.permissions &&& (command.command mpf).permissions =
        (command.command mpf).permissions
      · cases command with
        | key command => exact Nat.le_of_eq (step_key_length asked whole).symm
        | dbsize =>
            rw [execute_permitted permitted] at ran
            exact (dbsize_extends ran).length_le
        | flushall =>
            rw [execute_permitted permitted] at ran
            exact (@flushall_extends request.entry request.index _ _ ran).length_le
        | flushdb =>
            rw [execute_permitted permitted] at ran
            exact (onDatabase_extends ran).length_le
        | select =>
            rw [execute_permitted permitted] at ran
            exact (@select_extends request.entry request.index _ _ ran).length_le
      · rw [execute_denied permitted ran]

/-! ## The end -/

/-- How many steps the databases from an index on take at most. -/
def stepsFrom (databases : Databases) (index : Nat) : Nat :=
  ((databases.drop index).map fun database => 2 * database.data.capacity + 3).sum + 1

/-- How many slots the thread looks at in its database. -/
def slotsAt (databases : Databases) (index : Nat) : Nat :=
  (databases[index]?.map fun database => database.data.capacity).getD 0

/-- How many steps are left at most, where the thread is left alone. -/
def stepsLeft (databases : Databases) : Thread → Nat
  | .saving index .node _ => stepsFrom databases index
  | .saving index (.sizing slot _) _ =>
      slotsAt databases index - slot + slotsAt databases index + 2 + stepsFrom databases (index + 1)
  | .saving index (.dumping slot _) _ =>
      slotsAt databases index - slot + 1 + stepsFrom databases (index + 1)
  | .done _ | .lost => 0

theorem stepsFrom_some {databases : Databases} {index : Nat} {database : Database}
    (held : databases[index]? = some database) : stepsFrom databases index =
      2 * database.data.capacity + 3 + stepsFrom databases (index + 1) := by
  obtain ⟨inside, same⟩ := List.getElem?_eq_some_iff.mp held
  rw [stepsFrom, stepsFrom, List.drop_eq_getElem_cons inside, same, List.map_cons, List.sum_cons]
  omega

theorem slotsAt_some {databases : Databases} {index : Nat} {database : Database}
    (held : databases[index]? = some database) :
    slotsAt databases index = database.data.capacity := by
  rw [slotsAt, held]
  rfl

theorem stepsLeft_goOn {databases : Databases} {index : Nat} {stage : Stage} {most : Nat}
    (enough : ∀ state, stepsLeft databases (.saving index stage state) ≤ most)
    (next : Option State) : stepsLeft databases (.goOn index stage next) ≤ most := by
  cases next with
  | none => exact Nat.zero_le _
  | some state => exact enough state

theorem stepsLeft_save (file : Bytes) (databases : Databases) (thread : Thread) :
    stepsLeft databases (save file databases thread) ≤ stepsLeft databases thread - 1 := by
  cases thread with
  | done bytes => exact Nat.zero_le _
  | lost => exact Nat.zero_le _
  | saving index stage state =>
      cases held : databases[index]? with
      | none =>
          cases stage with
          | node =>
              rw [save_end held]
              exact Nat.zero_le _
          | sizing slot dataSize =>
              simp only [save, held]
              exact Nat.zero_le _
          | dumping slot dataSize =>
              simp only [save, held]
              exact Nat.zero_le _
      | some database =>
          have slots := slotsAt_some held
          cases stage with
          | node =>
              rw [save_node held]
              refine stepsLeft_goOn (fun next => ?_) _
              rw [stepsLeft, stepsLeft, stepsFrom_some held, slots]
              omega
          | sizing slot dataSize =>
              rw [save_sizing held, sizeSlot]
              split
              · split
                · rw [stepsLeft, stepsLeft]
                  omega
                · split
                  · rw [stepsLeft, stepsLeft]
                    omega
                  · exact Nat.zero_le _
              · split
                · rw [stepsLeft, stepsLeft]
                  omega
                · rw [stepsLeft, stepsLeft]
                  omega
          | dumping slot dataSize =>
              rw [save_dumping held, dumpSlot]
              split
              · split
                · rw [stepsLeft, stepsLeft]
                  omega
                · refine stepsLeft_goOn (fun next => ?_) _
                  rw [stepsLeft, stepsLeft]
                  omega
              · rw [stepsLeft, stepsLeft]
                omega

theorem ended_of_stepsLeft {databases : Databases} {thread : Thread}
    (none_left : stepsLeft databases thread = 0) : thread.ended = true := by
  cases thread with
  | done bytes => rfl
  | lost => rfl
  | saving index stage state =>
      have positive : 1 ≤ stepsFrom databases index := Nat.le_add_left 1 _
      cases stage with
      | node =>
          rw [stepsLeft] at none_left
          omega
      | sizing slot dataSize =>
          rw [stepsLeft] at none_left
          omega
      | dumping slot dataSize =>
          rw [stepsLeft] at none_left
          omega

/-- The thread ends where it is left alone. -/
theorem save_ends (file : Bytes) (databases : Databases) (thread : Thread) {steps : Nat}
    (enough : stepsLeft databases thread ≤ steps) :
    ((save file databases)^[steps] thread).ended = true :=
  ended_of_stepsLeft (ends_alone (stepsLeft_save file databases) thread enough)

/-! ## Runs -/

section Runs

variable {mpf : Mpf} {file : Bytes}

/-- Nothing happens to a thread that has ended. -/
theorem ended_stays {turns : List Turn} {server reached : Server}
    (ended : server.reader.ended = true)
    (ran : run (step mpf file) server turns = some reached) :
    reached.reader = server.reader := by
  have kept : ∀ (reached : Server) turn next, reached.reader = server.reader →
      step mpf file reached turn = some next → next.reader = server.reader := by
    intro reached turn next same stepped
    cases turn with
    | read =>
        cases stepped
        show save file reached.store reached.reader = _
        rw [same]
        cases thread : server.reader with
        | saving index stage state =>
            rw [thread] at ended
            cases ended
        | done bytes => rfl
        | lost => rfl
    | change request =>
        obtain ⟨store, -, rfl⟩ := Option.map_eq_some_iff.mp stepped
        exact same
  exact run_invariant kept rfl ran

/-- The thread leads to the file of the databases of the instant, as long as what it reads agrees
with them. -/
theorem leads_run {saved : List SavedDatabase} {final : State} {instant : Databases}
    (generated : (instant.map savedDatabase).mapM writtenDatabase = some saved)
    {turns : List Turn} {server reached : Server}
    (leads : Leads instant saved file final server.reader)
    (inList : InList server.store server.reader)
    (agrees : Guarded (step mpf file) (OnReads (Agrees instant)) server turns)
    (ran : run (step mpf file) server turns = some reached) :
    Leads instant saved file final reached.reader := by
  have reads : ∀ databases thread,
      Leads instant saved file final thread ∧ InList databases thread →
      Agrees instant databases thread →
        Leads instant saved file final (save file databases thread) ∧
          InList databases (save file databases thread) := by
    intro databases thread held agree
    exact ⟨held.1.save generated held.2 agree, held.2.save⟩
  have changes : ∀ databases request next thread, Data.step mpf databases request = some next →
      Leads instant saved file final thread ∧ InList databases thread →
        Leads instant saved file final thread ∧ InList next thread := by
    intro databases request next thread stepped held
    exact ⟨held.1, held.2.mono (step_length stepped)⟩
  exact (shared_invariant reads changes ⟨leads, inList⟩ agrees ran).1

theorem Leads.done_of_ended {instant : Databases} {saved : List SavedDatabase} {final : State}
    {thread : Thread} (leads : Leads instant saved file final thread)
    (ended : thread.ended = true) : thread = .done (finish file final) := by
  cases thread with
  | saving index stage state => cases ended
  | done bytes => rw [show bytes = finish file final from leads]
  | lost => exact absurd leads id

end Runs

end TellyDB.Commands.Data.BackgroundSave
