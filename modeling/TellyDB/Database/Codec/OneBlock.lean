import TellyDB.Database.Codec.Authorization
import TellyDB.Database.Read.File

/-!
Owns the file that lies in front of the end of its first block: what a save leaves there,
and how a start reads it up to the databases.
-/

namespace TellyDB.Database.Codec

open Resp Utils Lib Positional ByteSource Slices File Read

variable {capacity : Nat} {saving : Saving}

/-! ## The save -/

theorem databasesFit_within {databases : List SavedDatabase} {position : Nat}
    (begun : 1 ≤ position)
    (within : position + (databases.map databaseBytes).flatten.length ≤ capacity) :
    DatabasesFit capacity position databases := by
  induction databases generalizing position with
  | nil => trivial
  | cons database rest inductionHypothesis =>
      have filled : ∀ place, 1 ≤ place → place ≤ capacity → fill capacity place = place := by
        intro place some_byte inBlock
        rw [fill, Nat.mod_eq_of_lt (by omega)]
        omega
      have counted : ∀ (records : List Bytes) place, 1 ≤ place →
          place + records.flatten.length ≤ capacity → RecordsCounted capacity place records := by
        intro records
        induction records with
        | nil => exact fun _ _ _ => trivial
        | cons record more laterRecords =>
            intro place some_byte inBlock
            rw [List.flatten_cons, List.length_append] at inBlock
            refine ⟨?_, laterRecords _ (by omega) (by omega)⟩
            rw [filled place some_byte (by omega)]
            exact fun spans => absurd spans (by omega)
      rw [List.map_cons, List.flatten_cons, List.length_append, databaseBytes,
        List.length_append] at within
      refine ⟨?_, counted _ _ (by omega) (by omega), inductionHypothesis (by omega) ?_⟩
      · rw [filled position begun (by omega)]
        omega
      · rw [databaseBytes, List.length_append]
        omega

/-- At most one password, and a file that ends in front of the end of the first block. -/
theorem saveData_fits (bounded : capacity ≤ 65535) (few : saving.passwords.length ≤ 1)
    (within : (fileBytes saving).length < capacity) :
    saveData always true capacity saving = some (true, fileBytes saving) := by
  have length : (fileBytes saving).length =
      (startBytes saving).length + (saving.databases.map databaseBytes).flatten.length := by
    rw [fileBytes_eq, List.length_append]
  have start := length_startBytes saving
  refine (saveData_started bounded few (by omega)).mpr
    ⟨databasesFit_within (by omega) (by omega), fun divides => ?_⟩
  exact absurd (Nat.le_of_dvd (by omega) divides) (Nat.not_le_of_lt within)

/-- Behind the passwords the size is never too small, and right for at most one of them. -/
theorem saveStart_size {headed started : State}
    (headers : saveHeaders capacity saving.serverAge saving.passwords.length = some headed)
    (ran : savePasswords always headed saving.passwords = some started) :
    started.Sound ∧ started.blockCapacity = capacity ∧
      (startBytes saving).length ≤ started.size ∧
      ((startBytes saving).length ≤ capacity →
        ((startBytes saving).length = started.size ↔ saving.passwords.length ≤ 1)) := by
  by_cases starts : saving.passwords.length ≤ 1 ∧ (startBytes saving).length ≤ capacity
  · obtain ⟨headedAgain, startedAgain, headersAgain, ranAgain, sound, -, capacity_eq, size_eq⟩ :=
      saveStart_some starts.1 starts.2
    obtain rfl := Option.some.inj (headers.symm.trans headersAgain)
    obtain rfl := Option.some.inj (ran.symm.trans ranAgain)
    exact ⟨sound, capacity_eq, Nat.le_of_eq size_eq.symm, fun _ =>
      ⟨fun _ => starts.1, fun _ => size_eq.symm⟩⟩
  · obtain ⟨sound, capacity_eq, larger⟩ := saveStart_larger starts headers ran
    refine ⟨sound, capacity_eq, Nat.le_of_lt larger, fun within => ⟨fun same => ?_, fun few => ?_⟩⟩
    · exact absurd same (Nat.ne_of_lt larger)
    · exact absurd ⟨few, within⟩ starts

/-- A save that leaves a file shorter than a block leaves all bytes of the state in it, and bytes
behind them exactly when there is more than one password. -/
theorem saveData_one_block (bounded : capacity ≤ 65535) {file : Bytes}
    (saved : saveData always true capacity saving = some (true, file))
    (short : file.length < capacity) :
    saving.passwords.length < 16 ∧ ∃ extra, file = fileBytes saving ++ extra ∧
      (extra = [] ↔ saving.passwords.length ≤ 1) := by
  simp only [saveData, Option.bind_eq_bind, Option.bind_eq_some_iff] at saved
  obtain ⟨headed, headers, started, ran, saved⟩ := saved
  have room := saveHeaders_room headers
  have few := passwordCountByteCount_le.mp room.2
  obtain ⟨sound, capacity_eq, atLeast, sizes⟩ := saveStart_size headers ran
  simp only [sound.kept, Bool.false_eq_true, if_false, Option.bind_eq_some_iff] at saved
  obtain ⟨final, dumped, saved⟩ := saved
  have cases := saveDatabases_cases saving.databases sound (by rw [capacity_eq]; exact bounded)
  have fits : DatabasesFit started.blockCapacity started.content.length saving.databases := by
    by_contra never
    rw [cases.2 never] at dumped
    cases dumped
  obtain ⟨again, dumpedAgain, appended⟩ := cases.1 fits
  obtain rfl := Option.some.inj (dumped.symm.trans dumpedAgain)
  have flushed_size : (flushBlock always final).size = final.size := by
    rw [flushBlock]
    split <;> rfl
  split at saved
  · cases saved
  · obtain rfl : truncate (overwrite saving.file (flushBlock always final).written.flatten)
        (flushBlock always final).size = file := (Prod.mk.inj (Option.some.inj saved)).2
    rw [length_truncate, flushed_size] at short
    rw [flushed_size]
    have size_eq := appended.size_eq
    have length : (fileBytes saving).length =
        (startBytes saving).length + (saving.databases.map databaseBytes).flatten.length := by
      rw [fileBytes_eq, List.length_append]
    have start := length_startBytes saving
    -- everything in front of the databases is in the block, and so is the rest
    obtain ⟨startedAgain, ranAgain, startContent⟩ :=
      passwords_fit (saveHeaders_headed headers) (by omega)
    obtain rfl := Option.some.inj (ran.symm.trans ranAgain)
    have content : final.content = fileBytes saving := by
      rw [appended.content, startContent, ← startBytes_eq, fileBytes_eq]
    have within := appended.sound.within
    have block_length := appended.sound.block_length
    have final_capacity := appended.capacity_eq.trans capacity_eq
    have content_length : final.content.length =
        final.written.length * final.blockCapacity + final.blockSize := by
      rw [State.content, List.length_append, length_blocks appended.sound.blocks, List.length_take,
        block_length, Nat.min_eq_left within]
    have none_written : final.written = [] := by
      by_contra some_block
      have positive := List.length_pos_iff.mpr some_block
      have whole := Nat.le_mul_of_pos_left final.blockCapacity positive
      rw [content] at content_length
      omega
    rw [State.content, none_written, List.flatten_nil, List.nil_append] at content
    have filled : final.blockSize = (fileBytes saving).length := by
      rw [← content, List.length_take, block_length, Nat.min_eq_left within]
    refine ⟨few, (final.block.take final.size).drop final.blockSize, ?_, ?_⟩
    · rw [flushBlock, if_pos (by omega), writeBlock_always]
      show truncate (overwrite saving.file (final.written ++ [final.block]).flatten) final.size = _
      rw [none_written, List.nil_append, List.flatten_singleton,
        truncate_overwrite_inside (by omega), ← content]
      have front : (final.block.take final.size).take final.blockSize =
          final.block.take final.blockSize := by
        rw [List.take_take, Nat.min_eq_left (by omega)]
      rw [← front, List.take_append_drop]
    · rw [List.drop_eq_nil_iff, List.length_take, block_length, ← sizes (by omega)]
      omega

/-! ## The start -/

/-- A file that lies in one block is read up to the databases. -/
theorem openDatabaseFd_start {fuel : Nat} {databaseName extra padding : Bytes}
    (few : saving.passwords.length < 16) (short : (fileBytes saving ++ extra).length < capacity)
    (filled : (slice (fileBytes saving ++ extra) 0 capacity ++ padding).length = capacity) :
    ∃ serverAge, openDatabaseFd fuel databaseName (fileBytes saving ++ extra) padding capacity =
      (readFile fuel (fileBytes saving ++ extra).length databaseName
        (loaded (fileBytes saving ++ extra) padding capacity (startBytes saving).length)).map
          fun databases => ⟨serverAge, saving.passwords, databases⟩ := by
  have start := length_startBytes saving
  have bytes_eq : fileBytes saving ++ extra = headersBytes saving.serverAge saving.passwords.length ++
      (saving.passwords.map passwordBytes).flatten ++
        ((saving.databases.map databaseBytes).flatten ++ extra) := by
    rw [fileBytes_eq, startBytes_eq, List.append_assoc]
  have within : 7 + passwordCountByteCount saving.passwords.length + 49 * saving.passwords.length <
      capacity := by
    rw [fileBytes_eq, List.length_append, List.length_append] at short
    omega
  have authorized : getAuthorizationFromFile
      (loaded (fileBytes saving ++ extra) padding capacity 0) =
        some ⟨saving.passwords, 0, (startBytes saving).length⟩ := by
    rw [bytes_eq] at filled ⊢
    rw [getAuthorizationFromFile_whole few (Nat.le_of_lt within) filled, Nat.mod_eq_of_lt within,
      start]
  have nonempty : fileBytes saving ++ extra ≠ [] := by
    rw [bytes_eq, headersBytes, magic]
    exact List.cons_ne_nil _ _
  have front : magic ++ littleEndian 4 saving.serverAge <+:
      slice (fileBytes saving ++ extra) 0 capacity ++ padding := by
    apply List.IsPrefix.trans _ (List.prefix_append _ _)
    rw [slice, List.drop_zero, List.take_of_length_le (Nat.le_of_lt short), fileBytes]
    simp only [List.append_assoc, List.prefix_append_right_inj]
    exact List.prefix_append _ _
  have constant : copyBlock (slice (fileBytes saving ++ extra) 0 capacity ++ padding) 0 2 =
      some magic := by
    rw [copyBlock_eq (by rw [filled]; omega), slice_of_prefix front (by simp [magic])]
    rfl
  have age : copyBlock (slice (fileBytes saving ++ extra) 0 capacity ++ padding) 2 4 =
      some (littleEndian 4 saving.serverAge) := by
    rw [copyBlock_eq (by rw [filled]; omega), slice_of_prefix front (by simp [magic]), slice]
    exact congrArg some (List.take_of_length_le (Nat.le_of_eq (length_littleEndian _ _)))
  refine ⟨ofLittleEndian (littleEndian 4 saving.serverAge), ?_⟩
  rw [openDatabaseFd, if_neg nonempty]
  show (copyBlock (slice (fileBytes saving ++ extra) 0 capacity ++ padding) 0 2).bind _ = _
  rw [constant, Option.bind_some]
  show (if magic ≠ magic then none else
    (copyBlock (slice (fileBytes saving ++ extra) 0 capacity ++ padding) 2 4).bind _) = _
  have reached_eq : (loaded (fileBytes saving ++ extra) padding capacity 0).reached
      ⟨saving.passwords, 0, (startBytes saving).length⟩ =
        loaded (fileBytes saving ++ extra) padding capacity (startBytes saving).length := if_pos rfl
  rw [if_neg (not_not_intro rfl), age, Option.bind_some, authorized]
  show (readFile fuel _ databaseName ((loaded (fileBytes saving ++ extra) padding capacity 0).reached
    ⟨saving.passwords, 0, (startBytes saving).length⟩)).bind _ = _
  rw [reached_eq, Option.map_eq_bind]
  rfl

end TellyDB.Database.Codec
