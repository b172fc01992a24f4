import TellyDB.Commands.Data.Writes
import TellyDB.Lib.Transition

/-!
Owns runs of commands on the databases, and when a property of the values under the
keys holds throughout a run.
-/

namespace TellyDB.Commands.Data

open Resp Server Database.Keyspace Lib.Transition

variable {mpf : Mpf}

/-- A transaction. `command` is `none` for a command that leaves the databases alone: one of
`commands/generic/`, or SAVE, BGSAVE or LASTSAVE. -/
structure Request where
  command : Option DataCommand
  entry : Entry
  index : Nat
  clock : Option Nat

/-- One transaction, from whichever connection. -/
def step (mpf : Mpf) (databases : Databases) (request : Request) : Option Databases :=
  match request.command with
  | none => some databases
  | some command =>
      (executeTransaction request.clock (command.command mpf) request.entry request.index
        databases).map Outcome.databases

/-- Databases without keys. -/
def Empty (databases : Databases) : Prop :=
  ∀ database ∈ databases, ∀ key, database.data.get key = none

/-- A property of every value under its key. -/
def Holds (property : Bytes → Value → Prop) (databases : Databases) : Prop :=
  ∀ database ∈ databases, ∀ key kv, database.data.get key = some kv → property key kv.value

section Invariant

variable {property : Bytes → Value → Prop} {databases after : Databases}

theorem Empty.holds (empty : Empty databases) : Holds property databases := by
  intro database member key kv held
  rw [empty database member key] at held
  cases held

theorem empty_allocate (name : Bytes) : Empty [allocateDatabase name] := by
  intro database member key
  rw [List.mem_singleton] at member
  rw [member, allocateDatabase, TellyDB.Database.Table.get_create]

theorem Holds.setDataAt (holds : Holds property databases) {index : Nat} {data : Data}
    (kept : ∀ key kv, data.get key = some kv → property key kv.value) :
    Holds property (setDataAt databases index data) := by
  intro database member
  rw [Data.setDataAt] at member
  rcases List.mem_iff_getElem?.mp member with ⟨place, held⟩
  rw [List.getElem?_modify] at held
  rcases Option.map_eq_some_iff.mp held with ⟨former, found, same⟩
  split at same
  · rw [← same]
    exact kept
  · rw [← same]
    exact holds former (List.mem_of_getElem? found)

/-- A command that takes keys keeps the property where the values it stores have it. -/
theorem key_holds {clock : Option Nat} {command : KeyCommand} {entry : Entry} {index : Nat}
    {outcome : Outcome} (holds : Holds property databases)
    (stores : ∀ database, databases[index]? = some database → ∀ key value,
      Stores mpf clock entry (ready clock command entry.args database.data) command key value →
        property key value)
    (ran : executeTransaction clock (DataCommand.command mpf (.key command)) entry index
      databases = some outcome) : Holds property outcome.databases := by
  by_cases permitted : entry.permissions &&& command.permissions = command.permissions
  · rw [execute_key permitted, Option.bind_eq_some_iff] at ran
    rcases ran with ⟨database, held, ran⟩
    rw [Option.map_eq_some_iff] at ran
    rcases ran with ⟨⟨data, reply⟩, ran, same⟩
    cases same
    refine holds.setDataAt fun key kv present => ?_
    rcases run_writes ran key kv present with ⟨old, before, same⟩ | stored
    · rcases fewer_ready clock command entry.args database.data key with kept | removed
      · rw [kept] at before
        rw [← same]
        exact holds database (List.mem_of_getElem? held) key old before
      · rw [removed] at before
        cases before
    · exact stores database held key kv.value stored
  · rw [execute_denied permitted ran]
    exact holds

theorem clearDatabase_eq {data cleared : Data} (ran : clearDatabase data = some cleared) :
    cleared = data.clear := by
  rw [clearDatabase, Option.bind_eq_bind, Option.bind_eq_some_iff] at ran
  rcases ran with ⟨-, -, same⟩
  cases same
  rfl

theorem flushdb_holds {entry : Entry} {index : Nat} {outcome : Outcome}
    (holds : Holds property databases)
    (ran : onDatabase runFlushdb entry index databases = some outcome) :
    Holds property outcome.databases := by
  rw [onDatabase_eq, Option.bind_eq_some_iff] at ran
  rcases ran with ⟨database, held, ran⟩
  rw [Option.map_eq_some_iff] at ran
  rcases ran with ⟨⟨data, reply⟩, ran, same⟩
  cases same
  rw [runFlushdb, Option.bind_eq_bind, Option.bind_eq_some_iff] at ran
  rcases ran with ⟨cleared, ran, same⟩
  cases same
  rw [clearDatabase_eq ran]
  refine holds.setDataAt fun key kv present => ?_
  rw [TellyDB.Database.Table.get_clear] at present
  cases present

theorem flush_eq {database after : Database} (ran : flush database = some after) :
    after = { database with data := database.data.clear } := by
  rw [flush, Option.bind_eq_bind, Option.bind_eq_some_iff] at ran
  obtain ⟨data, cleared, same⟩ := ran
  cases same
  rw [clearDatabase_eq cleared]

/-- FLUSHALL leaves every database under its name, without keys. -/
theorem flushall_eq {databases after : Databases} (ran : databases.mapM flush = some after) :
    after = databases.map fun database => { database with data := database.data.clear } := by
  induction databases generalizing after with
  | nil =>
      cases ran
      rfl
  | cons database rest inductionHypothesis =>
      rw [List.mapM_cons, Option.bind_eq_bind, Option.bind_eq_some_iff] at ran
      obtain ⟨first, flushed, ran⟩ := ran
      rw [Option.bind_eq_bind, Option.bind_eq_some_iff] at ran
      obtain ⟨others, ran, same⟩ := ran
      cases same
      rw [flush_eq flushed, inductionHypothesis ran, List.map_cons]

theorem flush_empty {cleared : Databases} (ran : databases.mapM flush = some cleared) :
    Empty cleared := by
  rw [flushall_eq ran]
  intro database member key
  obtain ⟨former, -, rfl⟩ := List.mem_map.mp member
  exact TellyDB.Database.Table.get_clear _ _

theorem flushall_holds {entry : Entry} (index : Nat) {outcome : Outcome}
    (ran : runFlushall entry index databases = some outcome) :
    Holds property outcome.databases := by
  rw [runFlushall, Option.bind_eq_bind, Option.bind_eq_some_iff] at ran
  rcases ran with ⟨cleared, ran, same⟩
  cases same
  exact (flush_empty ran).holds

theorem select_holds {entry : Entry} (index : Nat) {outcome : Outcome}
    (holds : Holds property databases) (ran : runSelect entry index databases = some outcome) :
    Holds property outcome.databases := by
  rw [runSelect] at ran
  split at ran
  · cases ran
    exact holds
  split at ran
  · next name args =>
      rw [Option.bind_eq_bind, Option.bind_eq_some_iff] at ran
      rcases ran with ⟨found, -, ran⟩
      split at ran
      · cases ran
        exact holds
      · cases ran
        intro database member key kv held
        rcases List.mem_append.mp member with former | created
        · exact holds database former key kv held
        · rw [List.mem_singleton] at created
          rw [created, allocateDatabase, TellyDB.Database.Table.get_create] at held
          cases held
  · cases ran
    exact holds

theorem dbsize_keeps {entry : Entry} (index : Nat) {outcome : Outcome}
    (ran : runDbsize entry index databases = some outcome) : outcome.databases = databases := by
  rw [runDbsize] at ran
  split at ran
  · cases ran
    rfl
  · rw [Option.bind_eq_bind, Option.bind_eq_some_iff] at ran
    rcases ran with ⟨size, -, ran⟩
    split at ran
    · cases ran
      rfl
    · cases ran
      rfl

/-- One transaction keeps the property where the values it stores have it. -/
theorem step_holds {request : Request} (holds : Holds property databases)
    (stores : ∀ command, request.command = some (.key command) → ∀ database,
      databases[request.index]? = some database → ∀ key value,
        Stores mpf request.clock request.entry
          (ready request.clock command request.entry.args database.data) command key value →
            property key value)
    (stepped : step mpf databases request = some after) : Holds property after := by
  rw [step] at stepped
  split at stepped
  · cases stepped
    exact holds
  · next command asked =>
      rw [Option.map_eq_some_iff] at stepped
      rcases stepped with ⟨outcome, ran, same⟩
      cases same
      by_cases permitted : request.entry.permissions &&& (command.command mpf).permissions =
        (command.command mpf).permissions
      · cases command with
        | key command => exact key_holds holds (stores command asked) ran
        | dbsize =>
            rw [execute_permitted permitted] at ran
            rw [dbsize_keeps request.index ran]
            exact holds
        | flushall =>
            rw [execute_permitted permitted] at ran
            exact flushall_holds request.index ran
        | flushdb =>
            rw [execute_permitted permitted] at ran
            exact flushdb_holds holds ran
        | select =>
            rw [execute_permitted permitted] at ran
            exact select_holds request.index holds ran
      · rw [execute_denied permitted ran]
        exact holds

end Invariant

end TellyDB.Commands.Data
