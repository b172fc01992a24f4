import TellyDB.Database.Codec.Persistence

/-!
Owns what a save that stops leaves of the save before it. The blocks are written over the
file from its first byte on, so the file is as it was as long as no block is written, and
does not open any more once one is.
-/

namespace TellyDB.Database.Codec

open Resp Utils Lib Positional ByteSource Slices FiniteMap File Read HashTable

/-- The states at which a save can stop: where a write fails, between two passwords or records,
and at its end, in front of `ftruncate`. A save that stops in the middle of a record has written
what it has written where the next write fails. -/
inductive Stopped (succeeds : Nat → Bool) (capacity : Nat) (saving : Saving) : State → Prop
  | passwords {headed stopped : State} {early late : List Password}
      (headers : saveHeaders capacity saving.serverAge saving.passwords.length = some headed)
      (passwords_eq : saving.passwords = early ++ late)
      (ran : savePasswords succeeds headed early = some stopped) :
      Stopped succeeds capacity saving stopped
  | records {headed started middle named stopped : State} {early late : List SavedDatabase}
      {database : SavedDatabase} {first last : List Bytes}
      (headers : saveHeaders capacity saving.serverAge saving.passwords.length = some headed)
      (ran : savePasswords succeeds headed saving.passwords = some started)
      (databases_eq : saving.databases = early ++ database :: late)
      (saved : saveDatabases succeeds started early = some middle)
      (begun : saveDatabase succeeds middle { database with records := [] } = some named)
      (records_eq : database.records = first ++ last)
      (dumped : dumpRecords succeeds named first = some stopped) :
      Stopped succeeds capacity saving stopped
  | final {headed started dumped : State}
      (headers : saveHeaders capacity saving.serverAge saving.passwords.length = some headed)
      (ran : savePasswords succeeds headed saving.passwords = some started)
      (saved : saveDatabases succeeds started saving.databases = some dumped) :
      Stopped succeeds capacity saving (flushBlock succeeds dumped)

/-- The file that a stopped save leaves. -/
def leftFile (saving : Saving) (stopped : State) : Bytes :=
  overwrite saving.file stopped.written.flatten

/-- Only whole blocks are written. -/
structure Blocks (capacity : Nat) (state : State) : Prop where
  capacity_eq : state.blockCapacity = capacity
  block_length : state.block.length = capacity
  written : ∀ block ∈ state.written, block.length = capacity

section Steps

variable {succeeds : Nat → Bool} {capacity : Nat} {state next : State}

theorem copy_length {target source copied : Bytes} {targetStart sourceStart count : Nat}
    (done : copy target targetStart source sourceStart count = some copied) :
    copied.length = target.length := by
  obtain ⟨inside, inSource, rfl⟩ := copy_inside done
  have part : (slice source sourceStart count).length = count := length_slice inSource
  exact length_splice (by rw [part]; exact inside)

theorem Blocks.store (blocks : Blocks capacity state) {block : Bytes}
    (length : block.length = state.block.length) (blockSize size : Nat) :
    Blocks capacity { state with block, blockSize, size } :=
  ⟨blocks.capacity_eq, length.trans blocks.block_length, blocks.written⟩

theorem Blocks.writeBlock (blocks : Blocks capacity state) (succeeds : Nat → Bool) :
    Blocks capacity (writeBlock succeeds state) := by
  rw [File.writeBlock]
  split
  · refine ⟨blocks.capacity_eq, blocks.block_length, ?_⟩
    intro block member
    rcases List.mem_append.mp member with earlier | last
    · exact blocks.written block earlier
    · rw [List.mem_singleton.mp last]
      exact blocks.block_length
  · exact ⟨blocks.capacity_eq, blocks.block_length, blocks.written⟩

theorem Blocks.dumpBlocks {record : Bytes} {turns remaining left : Nat}
    (blocks : Blocks capacity state)
    (ran : dumpBlocks succeeds record turns state remaining = some (next, left)) :
    Blocks capacity next := by
  induction turns generalizing state remaining with
  | zero => cases ran
  | succ turns inductionHypothesis =>
      rw [File.dumpBlocks] at ran
      split at ran
      · rw [Option.bind_eq_bind, Option.bind_eq_some_iff] at ran
        obtain ⟨block, copied, ran⟩ := ran
        have wrote := (blocks.store (copy_length copied) state.blockSize state.size).writeBlock
          succeeds
        dsimp only at ran
        split at ran
        · cases ran
          exact wrote
        · exact inductionHypothesis wrote ran
      · cases ran
        exact blocks

theorem Blocks.dumpRecord {record : Bytes} (blocks : Blocks capacity state)
    (ran : dumpRecord succeeds state record = some next) : Blocks capacity next := by
  rw [File.dumpRecord] at ran
  dsimp only at ran
  split at ran
  · cases ran
  · split at ran
    · rw [Option.bind_eq_bind, Option.bind_eq_some_iff] at ran
      obtain ⟨block, copied, ran⟩ := ran
      have wrote := (blocks.store (copy_length copied) state.blockSize state.size).writeBlock
        succeeds
      split at ran
      · cases ran
        exact wrote
      · rw [Option.bind_eq_bind, Option.bind_eq_some_iff] at ran
        obtain ⟨⟨reached, left⟩, looped, ran⟩ := ran
        have whole := wrote.dumpBlocks looped
        dsimp only at ran
        split at ran
        · cases ran
          exact whole
        · rw [Option.bind_eq_some_iff] at ran
          obtain ⟨last, copiedLast, made⟩ := ran
          cases made
          exact whole.store (copy_length copiedLast) _ _
    · rw [Option.bind_eq_bind, Option.bind_eq_some_iff] at ran
      obtain ⟨block, copied, made⟩ := ran
      cases made
      exact blocks.store (copy_length copied) _ _

theorem Blocks.dumpRecords {records : List Bytes} (blocks : Blocks capacity state)
    (ran : dumpRecords succeeds state records = some next) : Blocks capacity next := by
  induction records generalizing state with
  | nil =>
      cases ran
      exact blocks
  | cons record rest inductionHypothesis =>
      rw [File.dumpRecords, Option.bind_eq_bind, Option.bind_eq_some_iff] at ran
      obtain ⟨middle, dumped, ran⟩ := ran
      exact inductionHypothesis (blocks.dumpRecord dumped) ran

theorem Blocks.savePassword {password : Password} (blocks : Blocks capacity state)
    (ran : savePassword succeeds state password = some next) : Blocks capacity next := by
  rw [File.savePassword] at ran
  dsimp only at ran
  split at ran
  · rw [Option.bind_eq_bind, Option.bind_eq_some_iff] at ran
    obtain ⟨block, copied, ran⟩ := ran
    have wrote := (blocks.store (copy_length copied) state.blockSize state.size).writeBlock succeeds
    split at ran
    · cases ran
      exact wrote
    · simp only [Option.bind_eq_some_iff] at ran
      obtain ⟨rest, copiedRest, last, stored, made⟩ := ran
      cases made
      exact wrote.store ((storeBlock_length stored).trans (copy_length copiedRest)) _ _
  · simp only [Option.bind_eq_bind, Option.bind_eq_some_iff] at ran
    obtain ⟨data, copied, last, stored, made⟩ := ran
    cases made
    exact blocks.store ((storeBlock_length stored).trans (copy_length copied)) _ _

theorem Blocks.savePasswords {passwords : List Password} (blocks : Blocks capacity state)
    (ran : savePasswords succeeds state passwords = some next) : Blocks capacity next := by
  induction passwords generalizing state with
  | nil =>
      cases ran
      exact blocks
  | cons password rest inductionHypothesis =>
      rw [File.savePasswords, Option.bind_eq_bind, Option.bind_eq_some_iff] at ran
      obtain ⟨middle, saved, ran⟩ := ran
      have kept := blocks.savePassword saved
      split at ran
      · cases ran
        exact kept
      · exact inductionHypothesis kept ran

theorem Blocks.saveDatabase {database : SavedDatabase} (blocks : Blocks capacity state)
    (ran : saveDatabase succeeds state database = some next) : Blocks capacity next := by
  simp only [File.saveDatabase, Option.bind_eq_bind, Option.bind_eq_some_iff,
    Option.ite_none_left_eq_some] at ran
  obtain ⟨counted, storedCount, named, storedName, dumped, dumps, -, same⟩ := ran
  cases same
  exact (blocks.store ((storeBlock_length storedName).trans (storeBlock_length storedCount)) _
    _).dumpRecords dumps

theorem Blocks.saveDatabases {databases : List SavedDatabase} (blocks : Blocks capacity state)
    (ran : saveDatabases succeeds state databases = some next) : Blocks capacity next := by
  induction databases generalizing state with
  | nil =>
      cases ran
      exact blocks
  | cons database rest inductionHypothesis =>
      rw [File.saveDatabases, Option.bind_eq_bind, Option.bind_eq_some_iff] at ran
      obtain ⟨middle, saved, ran⟩ := ran
      exact inductionHypothesis (blocks.saveDatabase saved) ran

theorem Blocks.flushBlock (blocks : Blocks capacity state) :
    Blocks capacity (flushBlock succeeds state) := by
  rw [File.flushBlock]
  split
  · exact blocks.writeBlock succeeds
  · exact blocks

theorem blocks_headed {serverAge passwordCount : Nat}
    (headers : saveHeaders capacity serverAge passwordCount = some state) :
    Blocks capacity state := by
  have headed := saveHeaders_headed headers
  have capacity_eq := headed.capacity_eq
  refine ⟨capacity_eq, headed.sound.block_length.trans capacity_eq, ?_⟩
  intro block member
  exact (headed.sound.blocks block member).trans capacity_eq

end Steps

/-! ## The file -/

section Files

variable {succeeds : Nat → Bool} {capacity : Nat} {saving : Saving} {stopped : State}

theorem Stopped.blocks (stops : Stopped succeeds capacity saving stopped) :
    Blocks capacity stopped ∧ 7 ≤ capacity := by
  cases stops with
  | passwords headers passwords_eq ran =>
      have room := (saveHeaders_room headers).1
      exact ⟨(blocks_headed headers).savePasswords ran, by omega⟩
  | records headers ran databases_eq saved begun records_eq dumped =>
      have room := (saveHeaders_room headers).1
      have started := (blocks_headed headers).savePasswords ran
      exact ⟨((started.saveDatabases saved).saveDatabase begun).dumpRecords dumped, by omega⟩
  | final headers ran saved =>
      have room := (saveHeaders_room headers).1
      have started := (blocks_headed headers).savePasswords ran
      exact ⟨(started.saveDatabases saved).flushBlock, by omega⟩

/-- A save that fails leaves the file of a save that stops. -/
theorem saveData_stopped {truncates : Bool} {file : Bytes}
    (failed : saveData succeeds truncates capacity saving = some (false, file)) :
    ∃ stopped, Stopped succeeds capacity saving stopped ∧ file = leftFile saving stopped := by
  simp only [saveData, Option.bind_eq_bind, Option.bind_eq_some_iff] at failed
  obtain ⟨headed, headers, started, ran, failed⟩ := failed
  split at failed
  · cases failed
    exact ⟨started, .passwords headers (List.append_nil _).symm ran, rfl⟩
  · rw [Option.bind_eq_some_iff] at failed
    obtain ⟨dumped, saved, failed⟩ := failed
    split at failed
    · cases failed
      exact ⟨_, .final headers ran saved, rfl⟩
    · cases failed

/-- A save that stops leaves the state of the save before it in the file exactly when that was
there and no block is written yet. -/
theorem stopped_save_keeps (stops : Stopped succeeds capacity saving stopped)
    (previous : ServerState) : Restores capacity previous (leftFile saving stopped) ↔
      Restores capacity previous saving.file ∧ stopped.written = [] := by
  obtain ⟨blocks, room⟩ := stops.blocks
  constructor
  · intro restores
    have none_written : stopped.written = [] := by
      by_contra some_block
      have positive := List.length_pos_iff.mpr some_block
      have whole := Nat.le_mul_of_pos_left capacity positive
      have short := restores.short (by omega)
      rw [leftFile, overwrite, List.length_append, length_blocks blocks.written] at short
      omega
    rw [leftFile, none_written] at restores
    exact ⟨restores, none_written⟩
  · rintro ⟨restores, none_written⟩
    rw [leftFile, none_written]
    exact restores

end Files

/-- The state of a save in front of `ftruncate`. -/
def endState (succeeds : Nat → Bool) (capacity : Nat) (saving : Saving) : Option State := do
  let headed ← saveHeaders capacity saving.serverAge saving.passwords.length
  let started ← savePasswords succeeds headed saving.passwords
  let dumped ← saveDatabases succeeds started saving.databases
  some (flushBlock succeeds dumped)

theorem endState_stopped {succeeds : Nat → Bool} {capacity : Nat} {saving : Saving}
    {stopped : State} (ends : endState succeeds capacity saving = some stopped) :
    Stopped succeeds capacity saving stopped := by
  simp only [endState, Option.bind_eq_bind, Option.bind_eq_some_iff, Option.some.injEq] at ends
  obtain ⟨headed, headers, started, ran, dumped, saved, rfl⟩ := ends
  exact .final headers ran saved

/-- A server with a boolean. -/
def booleanState : ServerState := singleState [] (.scalar (.bool true)) trivial

/-- The save of this server. -/
def booleanSaving (file : Bytes) : Saving := ⟨5, [], [⟨[0x30], 1, [[1, 0x6e, 5, 1]]⟩], file⟩

theorem booleanState_saving (file : Bytes) :
    booleanState.saving file = some (booleanSaving file) := by
  have records : databaseRecords (singleton (.scalar (.bool true))) = some [[1, 0x6e, 5, 1]] := by
    rw [databaseRecords, singleton_present]
    rfl
  show (([singleton (.scalar (.bool true))].mapM writtenDatabase).map fun databases =>
    (⟨5, [], databases, file⟩ : Saving)) = _
  simp only [List.mapM_cons, List.mapM_nil, writtenDatabase, records]
  rfl

theorem booleanState_restored :
    Restores 512 booleanState (fileBytes (booleanSaving [])) := by
  refine restores_stored (by decide) (booleanState_saving []) (Nat.zero_le 1) ?_ (by decide +kernel)
  refine List.forall_mem_singleton.mpr ⟨by show 1 < stringLimit; decide, ?_⟩
  rw [singleton_present]
  exact List.forall_mem_singleton.mpr ⟨by show 1 < stringLimit; decide, trivial⟩

/-- The first write fails, and the state of the save before is still there. -/
theorem stopped_save_keeps_first : ∃ stopped,
    Stopped (fun _ => false) 512 (booleanSaving (fileBytes (booleanSaving []))) stopped ∧
      Restores 512 booleanState
        (leftFile (booleanSaving (fileBytes (booleanSaving []))) stopped) := by
  obtain ⟨stopped, ends, none_written⟩ : ∃ stopped,
      endState (fun _ => false) 512 (booleanSaving (fileBytes (booleanSaving []))) =
        some stopped ∧ stopped.written = [] := by
    have computed : (endState (fun _ => false) 512
        (booleanSaving (fileBytes (booleanSaving [])))).map State.written = some [] := by
      decide +kernel
    exact Option.map_eq_some_iff.mp computed
  exact ⟨stopped, endState_stopped ends, (stopped_save_keeps (endState_stopped ends)
    booleanState).mpr ⟨booleanState_restored, none_written⟩⟩

/-- Where `ftruncate` fails, the state of the save before is lost. -/
theorem stopped_save_loses : Restores 512 booleanState (fileBytes (booleanSaving [])) ∧
    ∃ file, saveData always false 512 (booleanSaving (fileBytes (booleanSaving []))) =
      some (false, file) ∧ ¬Restores 512 booleanState file := by
  have computed : (saveData always false 512
      (booleanSaving (fileBytes (booleanSaving [])))).map (fun result =>
        (result.1, result.2.length)) = some (false, 512) := by
    decide +kernel
  obtain ⟨⟨done, file⟩, saved, made⟩ := Option.map_eq_some_iff.mp computed
  obtain ⟨rfl, length⟩ := Prod.mk.inj made
  refine ⟨booleanState_restored, file, saved, fun restores => ?_⟩
  have short := restores.short (by decide)
  change file.length = 512 at length
  omega

end TellyDB.Database.Codec
