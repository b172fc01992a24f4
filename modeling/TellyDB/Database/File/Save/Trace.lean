import TellyDB.Database.File.Save
import TellyDB.Lib.Lifetimes
import TellyDB.Lib.Traced

/-!
Owns the trace of `save_data`: what it does with its two buffers, the file, its
descriptor and `saving`, in order. A run gets stuck where `save_data` has no result,
behind the access to a buffer that a failed write has freed.
-/

namespace TellyDB.Database.File

open Resp Lib Lib.Slices Lib.Positional Lib.Lifetimes

/-- `block`, and `data` for the records. -/
inductive Buffer where
  | block
  | data
deriving DecidableEq

/-- Where `write` is called: in the loop over the passwords, in `dump_into_file`, or for the last
block. -/
inductive Stage where
  | passwords
  | records
  | final
deriving DecidableEq

inductive Event where
  | buffer (access : Access Buffer)
  | write (stage : Stage) (succeeded : Bool)
  | truncate (succeeded : Bool)
  | close
  | saving (flag : Bool)
deriving DecidableEq

/-- A copy between the buffers. -/
def touch (buffers : List Buffer) (copied : Option Bytes) : Traced Event Bytes := do
  Traced.emit (buffers.map fun buffer => .buffer (.use buffer))
  Traced.lift copied

/-- `interrupt_dumping_into_file`. -/
def interruptDumpingIntoFile : List Event :=
  [.buffer (.free .data), .buffer (.free .block), .saving false, .close]

/-- Behind `cleanup`, where `data` is `NULL`. -/
def cleanup (ioFailed : Bool) : List Event :=
  [.buffer (.free .block), .saving false] ++ if ioFailed then [.close] else []

section Functions

-- Whether the call of `write` of this number succeeds.
variable (succeeds : Nat → Bool)

def traceWrite (stage : Stage) (state : State) : Traced Event State := do
  Traced.emit [.write stage (succeeds state.issued)]
  pure (writeBlock succeeds state)

/-- `write` in `dump_into_file`. -/
def traceDumpWrite (state : State) : Traced Event State := do
  let state ← traceWrite succeeds .records state
  if state.freed then do
    Traced.emit interruptDumpingIntoFile
    pure state
  else pure state

def traceDumpBlocks (record : Bytes) : Nat → State → Nat → Traced Event (State × Nat)
  | 0, _, _ => Traced.stuck
  | turns + 1, state, remaining =>
      if state.blockCapacity < remaining then do
        let block ← touch [.data, .block]
          (copy state.block 0 record (record.length - remaining) state.blockCapacity)
        let state ← traceDumpWrite succeeds { state with block }
        if state.freed then pure (state, remaining)
        else traceDumpBlocks record turns state (remaining - state.blockCapacity)
      else pure (state, remaining)

/-- `dump_into_file`, which uses `data` first, for `generate_value`. -/
def traceDumpRecord (state : State) (record : Bytes) : Traced Event State := do
  let kvSize := record.length
  let blockCount :=
    ((state.blockSize + kvSize + state.blockCapacity - 1) / state.blockCapacity) % UInt32.size
  Traced.emit [.buffer (.use .data)]
  if state.freed then Traced.stuck
  else if blockCount ≠ 1 then do
    let complete :=
      (((state.blockCapacity : Int) - state.blockSize) % (UInt16.size : Nat)).toNat
    let block ← touch [.data, .block] (copy state.block state.blockSize record 0 complete)
    let state ← traceDumpWrite succeeds { state with block }
    if state.freed then pure state
    else do
      let (state, remaining) ← traceDumpBlocks succeeds record (kvSize + 1) state (kvSize - complete)
      if state.freed then pure state
      else do
        let block ← touch [.data, .block] (copy state.block 0 record (kvSize - remaining) remaining)
        pure { state with block, blockSize := remaining, size := state.size + kvSize }
  else do
    let block ← touch [.data, .block] (copy state.block state.blockSize record 0 kvSize)
    pure { state with
      block, blockSize := state.blockSize + kvSize, size := state.size + kvSize }

/-- `foreach_hashtable` with `dump_into_file`, which goes on whatever `dump_into_file` does. -/
def traceDumpRecords (state : State) : List Bytes → Traced Event State
  | [] => pure state
  | record :: rest => do
      let state ← traceDumpRecord succeeds state record
      traceDumpRecords state rest

def traceSavePassword (state : State) (password : Password) : Traced Event State :=
  let newLength := state.blockSize + 49
  if state.blockCapacity < newLength then do
    let allowed := newLength - state.blockCapacity
    let block ← touch [.block] (copy state.block state.blockSize password.data 0 allowed)
    let state ← traceWrite succeeds .passwords { state with block }
    if state.freed then pure state
    else do
      let remaining := 48 - allowed
      let block ← touch [.block] (copy state.block 0 password.data 0 remaining)
      let block ← touch [.block] (storeBlock block remaining [password.permissions])
      pure { state with
        block, blockSize := remaining + 1
        size := state.size + state.blockCapacity + (remaining + 1) }
  else do
    let block ← touch [.block] (copy state.block state.blockSize password.data 0 48)
    let block ← touch [.block] (storeBlock block (state.blockSize + 48) [password.permissions])
    pure { state with block, blockSize := newLength, size := state.size + newLength }

def traceSavePasswords (state : State) : List Password → Traced Event State
  | [] => pure state
  | password :: rest => do
      let state ← traceSavePassword succeeds state password
      if state.freed then pure state else traceSavePasswords state rest

/-- One turn of the loop over the databases. `data` is allocated where there are entries, and freed
behind `dump_into_file` whatever that has done. -/
def traceSaveDatabase (state : State) (database : SavedDatabase) : Traced Event State := do
  let block ← touch [.block]
    (storeBlock state.block state.blockSize (littleEndian 8 database.count))
  let name := generateStringValue database.name
  let block ← touch [.block] (storeBlock block (state.blockSize + 8) name)
  let state := { state with
    block, blockSize := state.blockSize + 8 + name.length
    size := state.size + (name.length + 8) }
  if database.records = [] then pure state
  else do
    Traced.emit [.buffer (.allocate .data)]
    let state ← traceDumpRecords succeeds state database.records
    Traced.emit [.buffer (.free .data)]
    if state.freed then Traced.stuck else pure state

def traceSaveDatabases (state : State) : List SavedDatabase → Traced Event State
  | [] => pure state
  | database :: rest => do
      let state ← traceSaveDatabase succeeds state database
      traceSaveDatabases state rest

def traceFlushBlock (state : State) : Traced Event State :=
  if state.blockSize ≠ state.blockCapacity then traceWrite succeeds .final state else pure state

/-- `save_data`, where `running` is what `saving` is before. -/
def traceSaveData (truncates running : Bool) (capacity : Nat) (saving : Saving) :
    Traced Event (Bool × Bytes) :=
  if running then pure (false, saving.file)
  else do
    Traced.emit [.saving true, .buffer (.allocate .block), .buffer (.use .block)]
    let state ← Traced.lift (saveHeaders capacity saving.serverAge saving.passwords.length)
    let state ← traceSavePasswords succeeds state saving.passwords
    if state.freed then do
      Traced.emit (cleanup true)
      pure (false, overwrite saving.file state.written.flatten)
    else do
      let state ← traceSaveDatabases succeeds state saving.databases
      let state ← traceFlushBlock succeeds state
      let file := overwrite saving.file state.written.flatten
      if state.freed then do
        Traced.emit (cleanup true)
        pure (false, file)
      else do
        Traced.emit [.truncate truncates]
        Traced.emit (cleanup !truncates)
        pure (if truncates then (true, truncate file state.size) else (false, file))

/-! ## The trace has the result of the save -/

theorem result_touch (buffers : List Buffer) (copied : Option Bytes) :
    (touch buffers copied).result = copied := rfl

theorem result_traceWrite (stage : Stage) (state : State) :
    (traceWrite succeeds stage state).result = some (writeBlock succeeds state) := rfl

theorem result_traceDumpWrite (state : State) :
    (traceDumpWrite succeeds state).result = some (writeBlock succeeds state) := by
  simp [traceDumpWrite, result_traceWrite]

theorem result_traceDumpBlocks (record : Bytes) (turns : Nat) (state : State) (remaining : Nat) :
    (traceDumpBlocks succeeds record turns state remaining).result =
      dumpBlocks succeeds record turns state remaining := by
  induction turns generalizing state remaining with
  | zero => rfl
  | succ turns inductionHypothesis =>
      simp [traceDumpBlocks, dumpBlocks, result_touch, result_traceDumpWrite, inductionHypothesis]

theorem result_traceDumpRecord (state : State) (record : Bytes) :
    (traceDumpRecord succeeds state record).result = dumpRecord succeeds state record := by
  simp [traceDumpRecord, dumpRecord, result_touch, result_traceDumpWrite, result_traceDumpBlocks]

theorem result_traceDumpRecords (records : List Bytes) (state : State) :
    (traceDumpRecords succeeds state records).result = dumpRecords succeeds state records := by
  induction records generalizing state with
  | nil => rfl
  | cons record rest inductionHypothesis =>
      simp [traceDumpRecords, dumpRecords, result_traceDumpRecord, inductionHypothesis]

theorem result_traceSavePassword (state : State) (password : Password) :
    (traceSavePassword succeeds state password).result = savePassword succeeds state password := by
  simp [traceSavePassword, savePassword, result_touch, result_traceWrite]

theorem result_traceSavePasswords (passwords : List Password) (state : State) :
    (traceSavePasswords succeeds state passwords).result = savePasswords succeeds state passwords := by
  induction passwords generalizing state with
  | nil => rfl
  | cons password rest inductionHypothesis =>
      simp [traceSavePasswords, savePasswords, result_traceSavePassword, inductionHypothesis]

theorem result_traceFlushBlock (state : State) :
    (traceFlushBlock succeeds state).result = some (flushBlock succeeds state) := by
  rw [traceFlushBlock, flushBlock]
  split <;> rfl

variable {state : State}

theorem result_traceSaveDatabase (kept : state.freed = false) (database : SavedDatabase) :
    (traceSaveDatabase succeeds state database).result = saveDatabase succeeds state database := by
  by_cases empty : database.records = []
  · simp [traceSaveDatabase, saveDatabase, result_touch, empty, dumpRecords, kept]
  · simp [traceSaveDatabase, saveDatabase, result_touch, result_traceDumpRecords, empty]

theorem saveDatabase_kept {next : State} {database : SavedDatabase}
    (saved : saveDatabase succeeds state database = some next) : next.freed = false := by
  simp only [saveDatabase, Option.bind_eq_bind, Option.bind_eq_some_iff,
    Option.ite_none_left_eq_some] at saved
  obtain ⟨-, -, -, -, dumped, -, kept, same⟩ := saved
  obtain rfl := Option.some.inj same
  exact Bool.eq_false_of_not_eq_true kept

theorem result_traceSaveDatabases (kept : state.freed = false) (databases : List SavedDatabase) :
    (traceSaveDatabases succeeds state databases).result =
      saveDatabases succeeds state databases := by
  induction databases generalizing state with
  | nil => rfl
  | cons database rest inductionHypothesis =>
      simp only [traceSaveDatabases, saveDatabases, Traced.result_bind, Option.bind_eq_bind,
        result_traceSaveDatabase succeeds kept]
      apply Option.bind_congr
      intro next saved
      exact inductionHypothesis (saveDatabase_kept succeeds saved)

/-- The trace of a save that is not already running has its result. -/
theorem result_traceSaveData (truncates : Bool) (capacity : Nat) (saving : Saving) :
    (traceSaveData succeeds truncates false capacity saving).result =
      saveData succeeds truncates capacity saving := by
  simp only [traceSaveData, saveData, Traced.result_bind, Traced.result_emit, Traced.result_lift,
    Traced.result_ite, Traced.result_pure, result_traceSavePasswords, result_traceFlushBlock,
    Option.bind_eq_bind, Option.bind_some, Bool.false_eq_true, if_false]
  apply Option.bind_congr
  intro headed saved
  apply Option.bind_congr
  intro started ran
  split
  · rfl
  · next kept =>
      rw [result_traceSaveDatabases succeeds (Bool.eq_false_of_not_eq_true kept)]
      apply Option.bind_congr
      intro final dumped
      cases truncates <;> simp

end Functions

end TellyDB.Database.File
