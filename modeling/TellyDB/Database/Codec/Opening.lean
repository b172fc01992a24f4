import TellyDB.Database.Codec.Consumption
import TellyDB.Database.Read.File

/-!
Owns which files open. The place behind the last database is the end of the file, and
only full blocks are loaded behind the first one, so no file of a whole block or more
is ever opened.
-/

namespace TellyDB.Database.Codec

open Resp Utils Lib Positional ByteSource Slices File Read

variable {arguments : GenericArguments}

/-! ## Behind the passwords -/

theorem retrieveBlocks_start {passwordCount fuel start total : Nat} {retrieval : Retrieval}
    {authorization : Authorization} (positive : 1 ≤ arguments.blockSize)
    (retrieved : retrieveBlocks passwordCount fuel arguments start total retrieval =
      some authorization) :
    (authorization.start = start ∨
        arguments.offset ≤ authorization.start ∧ authorization.start < arguments.file.length) ∧
      authorization.filled < arguments.blockSize := by
  induction fuel generalizing arguments start total retrieval with
  | zero =>
      rw [retrieveBlocks] at retrieved
      dsimp only at retrieved
      split at retrieved
      · cases retrieved
        exact ⟨Or.inl rfl, Nat.mod_lt _ positive⟩
      · split at retrieved
        · cases retrieved
          exact ⟨Or.inl rfl, Nat.mod_lt _ positive⟩
        · cases retrieved
  | succ fuel inductionHypothesis =>
      rw [retrieveBlocks] at retrieved
      dsimp only at retrieved
      split at retrieved
      · cases retrieved
        exact ⟨Or.inl rfl, Nat.mod_lt _ positive⟩
      · split at retrieved
        · cases retrieved
          exact ⟨Or.inl rfl, Nat.mod_lt _ positive⟩
        · next some_bytes =>
            simp only [Option.bind_eq_bind, Option.bind_eq_some_iff] at retrieved
            obtain ⟨next, -, later⟩ := retrieved
            have inFile : arguments.offset < arguments.file.length := by
              have length := List.length_pos_iff.mpr some_bytes
              rw [slice, List.length_take, List.length_drop] at length
              omega
            obtain ⟨begun, filled⟩ := inductionHypothesis (by exact positive) later
            refine ⟨Or.inr ?_, filled⟩
            rcases begun with same | beyond
            · rw [same]
              exact ⟨Nat.le_refl _, inFile⟩
            · exact ⟨Nat.le_trans (Nat.le_add_right _ _) beyond.1, beyond.2⟩

/-- The first block stays loaded, or one behind it in the file is. -/
theorem getAuthorizationFromFile_start {authorization : Authorization}
    (positive : 1 ≤ arguments.blockSize)
    (read : getAuthorizationFromFile arguments = some authorization) :
    (authorization.start = 0 ∨
        arguments.offset ≤ authorization.start ∧ authorization.start < arguments.file.length) ∧
      authorization.filled < arguments.blockSize := by
  simp only [getAuthorizationFromFile, Option.bind_eq_bind, Option.bind_eq_some_iff] at read
  obtain ⟨byteCount, -, read⟩ := read
  split at read
  · cases read
  · rw [Option.bind_eq_some_iff] at read
    obtain ⟨bytes, -, read⟩ := read
    split at read
    · cases read
      exact ⟨Or.inl rfl, Nat.mod_lt _ positive⟩
    · rw [Option.bind_eq_some_iff] at read
      obtain ⟨retrieval, -, read⟩ := read
      exact retrieveBlocks_start positive read

/-- Where the reader of the databases begins. -/
theorem reached_inside {file padding : Bytes} {blockSize : Nat} {authorization : Authorization}
    (positive : 1 ≤ blockSize)
    (read : getAuthorizationFromFile (loaded file padding blockSize 0) = some authorization) :
    Inside file blockSize ((loaded file padding blockSize 0).reached authorization) ∧
      (blockSize ≤ file.length →
        blockSize ≤ ((loaded file padding blockSize 0).reached authorization).offset) ∧
      ((loaded file padding blockSize 0).reached authorization).position < blockSize := by
  obtain ⟨begun, filled⟩ := getAuthorizationFromFile_start positive read
  have first : (slice file 0 blockSize).length = min blockSize file.length := by
    rw [slice, List.length_take, List.drop_zero]
  rw [GenericArguments.reached]
  split
  · refine ⟨⟨rfl, rfl, ?_⟩, ?_, filled⟩
    · show (slice file 0 blockSize).length ≤ file.length
      omega
    · show _ → blockSize ≤ (slice file 0 blockSize).length
      omega
  · next started =>
      obtain ⟨later, inFile⟩ := begun.resolve_left started
      have loadedLength : (loaded file padding blockSize 0).offset = min blockSize file.length :=
        first
      have length : (slice file authorization.start blockSize).length ≤
          file.length - authorization.start := by
        rw [slice, List.length_take, List.length_drop]
        exact Nat.min_le_right _ _
      change authorization.start < file.length at inFile
      rw [loadedLength] at later
      refine ⟨⟨rfl, rfl, ?_⟩, ?_, filled⟩
      · show authorization.start + (slice file authorization.start blockSize).length ≤ file.length
        omega
      · show _ → blockSize ≤ authorization.start + (slice file authorization.start blockSize).length
        omega

/-! ## The databases -/

/-- The databases that are read from a file, behind the place where they begin. -/
theorem readFile_some {fuel fileSize : Nat} {databaseName : Bytes} {databases : Databases}
    (begun : arguments.position ≠ fileSize)
    (read : readFile fuel fileSize databaseName arguments = some databases) :
    ∃ (standing : Standing arguments) (next : { arguments : GenericArguments // Standing arguments }),
      collectDatabases blockSource fuel fileSize fuel arguments.position ⟨arguments, standing⟩ =
        some (databases.found, next) := by
  rw [readFile, if_neg begun] at read
  split at read
  · next standing =>
      simp only [Option.bind_eq_bind, Option.bind_eq_some_iff] at read
      obtain ⟨⟨found, next⟩, collected, read⟩ := read
      dsimp only at read
      refine ⟨standing, next, ?_⟩
      split at read
      · cases read
        exact collected
      · cases read
        exact collected
  · cases read

/-- The databases are read up to the end of the file, and no block behind the first one is loaded
on the way there. -/
theorem collectDatabases_inside {file : Bytes} {blockSize fuel turns : Nat}
    {state next : { arguments : GenericArguments // Standing arguments }}
    {databases : List LoadedDatabase} (inside : Inside file blockSize state.val)
    (collected : collectDatabases blockSource fuel file.length turns state.val.position state =
      some (databases, next)) :
    state.val.offset < blockSize ∧
      state.val.position + (databases.map databaseLength).sum ≤ file.length := by
  obtain ⟨kept, count, moved, complete, length⟩ := takes_databases
    (blockSource_tracks file blockSize) fuel file.length turns state.val.position state databases
    next inside collected
  have inBlock := next.property.inBlock
  have offset_le := kept.offset_le
  rw [kept.size_eq] at inBlock
  simp only [GenericArguments.place] at moved
  omega

/-- No file of a whole block or more is opened. -/
theorem openDatabaseFd_short {fuel blockSize : Nat} {databaseName file padding : Bytes}
    {opened : Opened} (positive : 1 ≤ blockSize)
    (opens : openDatabaseFd fuel databaseName file padding blockSize = some opened) :
    file.length < blockSize := by
  rw [openDatabaseFd] at opens
  split at opens
  · next empty =>
      rw [empty]
      exact positive
  · simp only [Option.bind_eq_bind, Option.bind_eq_some_iff] at opens
    obtain ⟨constant, -, opens⟩ := opens
    split at opens
    · cases opens
    · simp only [Option.bind_eq_some_iff] at opens
      obtain ⟨serverAge, -, authorization, authorized, databases, read, -⟩ := opens
      obtain ⟨inside, behind, inBlock⟩ := reached_inside positive authorized
      by_cases begun : ((loaded file padding blockSize 0).reached authorization).position =
          file.length
      · rw [← begun]
        exact inBlock
      · obtain ⟨standing, next, collected⟩ := readFile_some begun read
        have first := (@collectDatabases_inside file blockSize fuel fuel
          ⟨(loaded file padding blockSize 0).reached authorization, standing⟩ next databases.found
          inside collected).1
        by_contra long
        exact absurd (behind (Nat.le_of_not_lt long)) (Nat.not_le_of_lt first)

end TellyDB.Database.Codec
