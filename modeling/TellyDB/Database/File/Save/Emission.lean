import TellyDB.Database.File.Save
import TellyDB.Database.File.Blocks.Content

/-!
Owns when `save_data` leaves the whole file: where there is at most one password,
every database header lies in one block, and the last byte does not fill its
block.
-/

namespace TellyDB.Database.File

open Resp Lib.Slices Lib.Positional

variable {state next : State} {capacity : Nat}

/-! ## The block -/

theorem storeBlock_eq {block bytes : Bytes} {offset : Nat}
    (inside : offset + bytes.length ≤ block.length) :
    storeBlock block offset bytes = some (splice block offset bytes) := by
  rw [storeBlock, copy_eq_some inside (by omega), slice, List.drop_zero, List.take_length]

theorem storeBlock_inside {block bytes stored : Bytes} {offset : Nat}
    (store : storeBlock block offset bytes = some stored) :
    offset + bytes.length ≤ block.length := by
  by_contra outside
  rw [storeBlock, copy, if_neg (fun both => outside both.1)] at store
  cases store

theorem storeBlock_length {block bytes stored : Bytes} {offset : Nat}
    (store : storeBlock block offset bytes = some stored) : stored.length = block.length := by
  have inside := storeBlock_inside store
  rw [storeBlock_eq inside, Option.some.injEq] at store
  rw [← store, length_splice inside]

/-- One byte behind the start of a block. -/
theorem take_splice_byte {list : Bytes} {start : Nat} (byte : UInt8)
    (inside : start ≤ list.length) :
    (splice list start [byte]).take (start + 1) = list.take start ++ [byte] := by
  have taken : (splice list start [byte]).take (start + [byte].length) =
      list.take start ++ [byte] := take_splice inside
  exact taken

theorem copy_inside {target source copied : Bytes} {targetStart sourceStart count : Nat}
    (ran : copy target targetStart source sourceStart count = some copied) :
    targetStart + count ≤ target.length ∧ sourceStart + count ≤ source.length ∧
      copied = splice target targetStart (slice source sourceStart count) := by
  rw [copy] at ran
  split at ran
  · next inside =>
      cases ran
      exact ⟨inside.1, inside.2, rfl⟩
  · cases ran

/-- Bytes behind the filled part of the block. -/
theorem State.Sound.store (sound : state.Sound) {bytes : Bytes}
    (fits : state.blockSize + bytes.length ≤ state.blockCapacity) :
    Appended state bytes { state with
      block := splice state.block state.blockSize bytes
      blockSize := state.blockSize + bytes.length, size := state.size + bytes.length } where
  sound := by
    refine ⟨sound.kept, Nat.le_trans sound.begun (Nat.le_add_right _ _), fits, ?_, sound.blocks⟩
    show (splice state.block state.blockSize bytes).length = _
    rw [length_splice (by rw [sound.block_length]; exact fits)]
    exact sound.block_length
  content := by
    show state.written.flatten ++ (splice state.block _ bytes).take _ = _
    rw [take_splice (by rw [sound.block_length]; exact sound.within), State.content,
      List.append_assoc]
  capacity_eq := rfl
  size_eq := rfl

theorem Appended.trans {first second : Bytes} {middle : State}
    (early : Appended state first middle) (late : Appended middle second next) :
    Appended state (first ++ second) next where
  sound := late.sound
  content := by rw [late.content, early.content, List.append_assoc]
  capacity_eq := late.capacity_eq.trans early.capacity_eq
  size_eq := by rw [late.size_eq, early.size_eq, List.length_append, Nat.add_assoc]

/-- How much of its block is filled once so many bytes are in the file, where a full block stays
pending. -/
def fill (capacity position : Nat) : Nat := (position - 1) % capacity + 1

theorem length_blocks : ∀ {written : List Bytes}, (∀ block ∈ written, block.length = capacity) →
    written.flatten.length = written.length * capacity
  | [], _ => (Nat.zero_mul _).symm
  | block :: rest, each => by
      have later := length_blocks fun other member => each other (List.mem_cons_of_mem _ member)
      rw [List.flatten_cons, List.length_append, each block List.mem_cons_self, later,
        List.length_cons, Nat.succ_mul, Nat.add_comm]

theorem State.Sound.blockSize_eq (sound : state.Sound) :
    state.blockSize = fill state.blockCapacity state.content.length := by
  have begun := sound.begun
  have within := sound.within
  have length : state.content.length =
      state.written.length * state.blockCapacity + state.blockSize := by
    rw [State.content, List.length_append, length_blocks sound.blocks, List.length_take, sound.block_length,
      Nat.min_eq_left within]
  rw [fill, length, show state.written.length * state.blockCapacity + state.blockSize - 1 =
    state.blockSize - 1 + state.written.length * state.blockCapacity by omega,
    Nat.add_mul_mod_self_right, Nat.mod_eq_of_lt (by omega)]
  omega

/-! ## Records and databases -/

/-- No record is counted as one block though it spans several. -/
def RecordsCounted (capacity : Nat) : Nat → List Bytes → Prop
  | _, [] => True
  | position, record :: rest =>
      Counted capacity (fill capacity position) record.length ∧
        RecordsCounted capacity (position + record.length) rest

/-- The header of each database lies in one block. -/
def DatabasesFit (capacity : Nat) : Nat → List SavedDatabase → Prop
  | _, [] => True
  | position, database :: rest =>
      fill capacity position + (headerBytes database).length ≤ capacity ∧
        RecordsCounted capacity (position + (headerBytes database).length) database.records ∧
        DatabasesFit capacity (position + (databaseBytes database).length) rest

instance : ∀ capacity position records, Decidable (RecordsCounted capacity position records)
  | _, _, [] => isTrue trivial
  | capacity, position, record :: rest =>
      have := instDecidableRecordsCounted capacity (position + record.length) rest
      inferInstanceAs (Decidable (_ ∧ _))

instance : ∀ capacity position databases, Decidable (DatabasesFit capacity position databases)
  | _, _, [] => isTrue trivial
  | capacity, position, database :: rest =>
      have := instDecidableDatabasesFit capacity (position + (databaseBytes database).length) rest
      inferInstanceAs (Decidable (_ ∧ _ ∧ _))

theorem dumpRecord_none (sound : state.Sound) {record : Bytes}
    (uncounted : ¬Counted state.blockCapacity state.blockSize record.length) :
    dumpRecord always state record = none := by
  rcases Classical.not_imp.mp uncounted with ⟨spans, one⟩
  have outside : ¬(state.blockSize + record.length ≤ state.block.length ∧
      0 + record.length ≤ record.length) := by
    rintro ⟨inBlock, -⟩
    rw [sound.block_length] at inBlock
    exact absurd spans (Nat.not_lt_of_le inBlock)
  rw [dumpRecord, if_neg (by rw [sound.kept]; exact Bool.false_ne_true), if_neg one, copy,
    if_neg outside]
  rfl

theorem dumpRecords_cases (sound : state.Sound) (records : List Bytes)
    (bounded : state.blockCapacity ≤ 65535) :
    (RecordsCounted state.blockCapacity state.content.length records →
        ∃ next, dumpRecords always state records = some next ∧
          Appended state records.flatten next) ∧
      (¬RecordsCounted state.blockCapacity state.content.length records →
        dumpRecords always state records = none) := by
  induction records generalizing state with
  | nil =>
      refine ⟨fun _ => ⟨state, rfl, sound, ?_, rfl, rfl⟩, fun never => absurd trivial never⟩
      rw [List.flatten_nil, List.append_nil]
  | cons record rest inductionHypothesis =>
      rw [RecordsCounted, ← sound.blockSize_eq, dumpRecords]
      by_cases counted : Counted state.blockCapacity state.blockSize record.length
      · rcases dumpRecord_appends sound bounded counted with ⟨middle, dumped, appended⟩
        have later := inductionHypothesis appended.sound (by rw [appended.capacity_eq]; exact bounded)
        rw [appended.capacity_eq, appended.content, List.length_append] at later
        rw [dumped]
        constructor
        · intro all
          rcases later.1 all.2 with ⟨next, ran, rests⟩
          exact ⟨next, ran, appended.trans rests⟩
        · intro fails
          exact later.2 fun rests => fails ⟨counted, rests⟩
      · rw [dumpRecord_none sound counted]
        exact ⟨fun all => absurd all.1 counted, fun _ => rfl⟩

theorem saveDatabase_cases (sound : state.Sound) (bounded : state.blockCapacity ≤ 65535)
    (database : SavedDatabase) :
    (state.blockSize + (headerBytes database).length ≤ state.blockCapacity ∧
        RecordsCounted state.blockCapacity
          (state.content.length + (headerBytes database).length) database.records →
        ∃ next, saveDatabase always state database = some next ∧
          Appended state (databaseBytes database) next) ∧
      (¬(state.blockSize + (headerBytes database).length ≤ state.blockCapacity ∧
          RecordsCounted state.blockCapacity
            (state.content.length + (headerBytes database).length) database.records) →
        saveDatabase always state database = none) := by
  have count_length := length_littleEndian 8 database.count
  have header : (headerBytes database).length = 8 + (generateStringValue database.name).length := by
    rw [headerBytes, List.length_append, count_length]
  have block_length := sound.block_length
  by_cases fits : state.blockSize + (headerBytes database).length ≤ state.blockCapacity
  · have countFits : state.blockSize + (littleEndian 8 database.count).length ≤
        state.blockCapacity := by omega
    have first := sound.store countFits
    rw [count_length] at first
    have nameFits : state.blockSize + 8 + (generateStringValue database.name).length ≤
        state.blockCapacity := by omega
    have second := first.sound.store nameFits
    have both := first.trans second
    have countStored : storeBlock state.block state.blockSize (littleEndian 8 database.count) =
        some (splice state.block state.blockSize (littleEndian 8 database.count)) :=
      storeBlock_eq (by omega)
    have nameStored : storeBlock
        (splice state.block state.blockSize (littleEndian 8 database.count))
        (state.blockSize + 8) (generateStringValue database.name) =
          some (splice (splice state.block state.blockSize (littleEndian 8 database.count))
            (state.blockSize + 8) (generateStringValue database.name)) :=
      storeBlock_eq (by rw [length_splice (by omega)]; omega)
    have size_eq : state.size + ((generateStringValue database.name).length + 8) =
        state.size + 8 + (generateStringValue database.name).length := by omega
    have records := dumpRecords_cases both.sound database.records bounded
    rw [both.content, List.length_append] at records
    simp only [saveDatabase, countStored, nameStored, size_eq, Option.bind_eq_bind,
      Option.bind_some]
    constructor
    · rintro ⟨-, counted⟩
      rcases records.1 counted with ⟨next, ran, appended⟩
      refine ⟨next, ?_, both.trans appended⟩
      rw [ran]
      simp only [Option.bind_some, appended.sound.kept, Bool.false_eq_true, if_false]
    · intro fails
      rw [records.2 fun counted => fails ⟨fits, counted⟩]
      rfl
  · refine ⟨fun both => absurd both.1 fits, fun _ => ?_⟩
    rw [saveDatabase]
    cases countStored : storeBlock state.block state.blockSize (littleEndian 8 database.count) with
    | none => rfl
    | some block =>
        cases nameStored : storeBlock block (state.blockSize + 8)
            (generateStringValue database.name) with
        | none => simp only [nameStored, Option.bind_eq_bind, Option.bind_some, Option.bind_none]
        | some stored =>
            have inside := storeBlock_inside nameStored
            rw [storeBlock_length countStored] at inside
            omega

theorem saveDatabases_cases (databases : List SavedDatabase) (sound : state.Sound)
    (bounded : state.blockCapacity ≤ 65535) :
    (DatabasesFit state.blockCapacity state.content.length databases →
        ∃ next, saveDatabases always state databases = some next ∧
          Appended state (databases.map databaseBytes).flatten next) ∧
      (¬DatabasesFit state.blockCapacity state.content.length databases →
        saveDatabases always state databases = none) := by
  induction databases generalizing state with
  | nil =>
      refine ⟨fun _ => ⟨state, rfl, sound, ?_, rfl, rfl⟩, fun never => absurd trivial never⟩
      rw [List.map_nil, List.flatten_nil, List.append_nil]
  | cons database rest inductionHypothesis =>
      have own := saveDatabase_cases sound bounded database
      rw [DatabasesFit, ← sound.blockSize_eq, ← and_assoc, saveDatabases]
      by_cases fits : state.blockSize + (headerBytes database).length ≤ state.blockCapacity ∧
          RecordsCounted state.blockCapacity
            (state.content.length + (headerBytes database).length) database.records
      · rcases own.1 fits with ⟨middle, saved, appended⟩
        have later := inductionHypothesis appended.sound (by rw [appended.capacity_eq]; exact bounded)
        rw [appended.capacity_eq, appended.content, List.length_append] at later
        rw [saved]
        constructor
        · intro all
          rcases later.1 all.2 with ⟨next, ran, rests⟩
          exact ⟨next, ran, appended.trans rests⟩
        · intro fails
          exact later.2 fun rests => fails ⟨fits, rests⟩
      · rw [own.2 fits]
        exact ⟨fun all => absurd all.1 fits, fun _ => rfl⟩

/-! ## Headers and passwords -/

/-- What a file holds before its databases. -/
def startBytes (saving : Saving) : Bytes :=
  magic ++ littleEndian 4 saving.serverAge ++ authorizationBytes saving.passwords

theorem take_littleEndian {width : Nat} (value : Nat) {count : Nat} (inside : count ≤ width) :
    (littleEndian width value).take count = littleEndian count value := by
  induction width generalizing value count with
  | zero =>
      obtain rfl : count = 0 := by omega
      rfl
  | succ width inductionHypothesis =>
      cases count with
      | zero => rfl
      | succ count =>
          rw [littleEndian, List.take_succ_cons, inductionHypothesis _ (by omega), littleEndian]

/-- The headers up to the password count. -/
def headersBytes (serverAge passwordCount : Nat) : Bytes :=
  magic ++ littleEndian 4 serverAge ++
    UInt8.ofNat (passwordCountByteCount passwordCount) ::
      littleEndian (passwordCountByteCount passwordCount) passwordCount

theorem length_headersBytes (serverAge passwordCount : Nat) :
    (headersBytes serverAge passwordCount).length = 7 + passwordCountByteCount passwordCount := by
  simp only [headersBytes, magic, List.length_append, List.length_cons, List.length_nil,
    length_littleEndian]
  omega

/-- The state behind the headers. -/
structure Headed (capacity serverAge passwordCount : Nat) (state : State) : Prop where
  sound : state.Sound
  content : state.content = headersBytes serverAge passwordCount
  capacity_eq : state.blockCapacity = capacity
  size_eq : state.size = if passwordCount = 0 then state.blockSize else 0

theorem Headed.blockSize_eq {serverAge passwordCount : Nat}
    (headed : Headed capacity serverAge passwordCount state)
    (room : 7 + passwordCountByteCount passwordCount ≤ capacity) :
    state.blockSize = 7 + passwordCountByteCount passwordCount := by
  rw [headed.sound.blockSize_eq, headed.content, length_headersBytes, fill, headed.capacity_eq,
    Nat.mod_eq_of_lt (by omega)]
  omega

/-- The headers fill the start of the first block. -/
theorem saveHeaders_some (serverAge : Nat) {passwordCount : Nat}
    (room : 7 + passwordCountByteCount passwordCount ≤ capacity)
    (small : passwordCountByteCount passwordCount ≤ 4) :
    ∃ state, saveHeaders capacity serverAge passwordCount = some state ∧
      Headed capacity serverAge passwordCount state := by
  have length := length_headersBytes serverAge passwordCount
  generalize byteCount_eq : passwordCountByteCount passwordCount = byteCount at room small length
  have start_length : (magic ++ littleEndian 4 serverAge).length = 6 := by
    simp [magic]
  have empty_length : (List.replicate capacity (0 : UInt8)).length = capacity :=
    List.length_replicate
  have startStored : storeBlock (List.replicate capacity 0) 0 (magic ++ littleEndian 4 serverAge) =
      some (splice (List.replicate capacity 0) 0 (magic ++ littleEndian 4 serverAge)) :=
    storeBlock_eq (by omega)
  have started : (splice (List.replicate capacity 0) 0 (magic ++ littleEndian 4 serverAge)).take
      (0 + (magic ++ littleEndian 4 serverAge).length) =
        (List.replicate capacity 0).take 0 ++ (magic ++ littleEndian 4 serverAge) :=
    take_splice (Nat.zero_le _)
  have started_length := storeBlock_length startStored
  rw [start_length, Nat.zero_add, List.take_zero, List.nil_append] at started
  generalize splice (List.replicate capacity 0) 0 (magic ++ littleEndian 4 serverAge) =
    startBlock at startStored started started_length
  have byteStored : storeBlock startBlock 6 [UInt8.ofNat byteCount] =
      some (splice startBlock 6 [UInt8.ofNat byteCount]) :=
    storeBlock_eq (by show 6 + 1 ≤ _; omega)
  have counted : (splice startBlock 6 [UInt8.ofNat byteCount]).take 7 =
      startBlock.take 6 ++ [UInt8.ofNat byteCount] :=
    take_splice_byte _ (by omega)
  have counted_length := storeBlock_length byteStored
  generalize splice startBlock 6 [UInt8.ofNat byteCount] = countBlock
    at byteStored counted counted_length
  have countCopied : copy countBlock 7 (littleEndian 4 passwordCount) 0 byteCount =
      some (splice countBlock 7 (littleEndian byteCount passwordCount)) := by
    rw [copy_eq_some (by omega) (by rw [length_littleEndian]; omega), slice, List.drop_zero,
      take_littleEndian passwordCount small]
  have number_length := length_littleEndian byteCount passwordCount
  have finished : (splice countBlock 7 (littleEndian byteCount passwordCount)).take
      (7 + (littleEndian byteCount passwordCount).length) =
        countBlock.take 7 ++ littleEndian byteCount passwordCount := take_splice (by omega)
  have finished_length : (splice countBlock 7 (littleEndian byteCount passwordCount)).length =
      countBlock.length := length_splice (by omega)
  refine ⟨{
    size := if passwordCount = 0 then 7 + byteCount else 0
    blockSize := 7 + byteCount
    blockCapacity := capacity
    block := splice countBlock 7 (littleEndian byteCount passwordCount)
    written := []
    issued := 0
    freed := false }, ?_, ⟨rfl, Nat.le_trans (by decide) (Nat.le_add_right 7 byteCount), room,
      ?_, fun block member => absurd member List.not_mem_nil⟩, ?_, rfl, rfl⟩
  · simp only [saveHeaders, byteCount_eq, startStored, byteStored, countCopied,
      Option.bind_eq_bind, Option.bind_some]
  · show (splice countBlock 7 (littleEndian byteCount passwordCount)).length = capacity
    omega
  · rw [number_length] at finished
    show ([] : List Bytes).flatten ++ List.take (7 + byteCount) _ = _
    rw [finished, counted, started, headersBytes, byteCount_eq]
    simp

theorem saveHeaders_room {serverAge passwordCount : Nat} {state : State}
    (saved : saveHeaders capacity serverAge passwordCount = some state) :
    7 + passwordCountByteCount passwordCount ≤ capacity ∧
      passwordCountByteCount passwordCount ≤ 4 := by
  simp only [saveHeaders, Option.bind_eq_bind, Option.bind_eq_some_iff] at saved
  rcases saved with ⟨first, storedFirst, second, storedSecond, third, copied, -⟩
  have inside := copy_inside copied
  have firstLength := storeBlock_length storedFirst
  have secondLength := storeBlock_length storedSecond
  rw [List.length_replicate] at firstLength
  rw [length_littleEndian] at inside
  omega

theorem saveHeaders_headed {serverAge passwordCount : Nat} {state : State}
    (saved : saveHeaders capacity serverAge passwordCount = some state) :
    Headed capacity serverAge passwordCount state := by
  have room := saveHeaders_room saved
  obtain ⟨again, savedAgain, headed⟩ := saveHeaders_some serverAge room.1 room.2
  rwa [Option.some.inj (saved.symm.trans savedAgain)]

/-- A password that fits into the block. -/
theorem savePassword_fits (sound : state.Sound) (password : Password)
    (fits : state.blockSize + 49 ≤ state.blockCapacity) :
    ∃ next, savePassword always state password = some next ∧ next.Sound ∧
      next.content = state.content ++ passwordBytes password ∧
      next.blockCapacity = state.blockCapacity ∧ next.blockSize = state.blockSize + 49 ∧
      next.size = state.size + state.blockSize + 49 := by
  have block_length := sound.block_length
  have within := sound.within
  have data_length := password.length_eq
  have dataCopied : copy state.block state.blockSize password.data 0 48 =
      some (splice state.block state.blockSize password.data) := by
    rw [copy_eq_some (by omega) (by omega), slice, List.drop_zero, ← data_length, List.take_length]
  have data : (splice state.block state.blockSize password.data).take
      (state.blockSize + password.data.length) =
        state.block.take state.blockSize ++ password.data := take_splice (by omega)
  have copied_length : (splice state.block state.blockSize password.data).length =
      state.block.length := length_splice (by omega)
  rw [data_length] at data
  generalize splice state.block state.blockSize password.data = block
    at dataCopied data copied_length
  have permissionStored : storeBlock block (state.blockSize + 48) [password.permissions] =
      some (splice block (state.blockSize + 48) [password.permissions]) :=
    storeBlock_eq (by show state.blockSize + 48 + 1 ≤ _; omega)
  have permission : (splice block (state.blockSize + 48) [password.permissions]).take
      (state.blockSize + 49) = block.take (state.blockSize + 48) ++ [password.permissions] :=
    take_splice_byte _ (by omega)
  have stored_length := storeBlock_length permissionStored
  refine ⟨{ state with
    block := splice block (state.blockSize + 48) [password.permissions]
    blockSize := state.blockSize + 49, size := state.size + (state.blockSize + 49) }, ?_,
    ⟨sound.kept, Nat.le_trans sound.begun (Nat.le_add_right _ _), fits, ?_, sound.blocks⟩, ?_,
    rfl, rfl, (Nat.add_assoc _ _ _).symm⟩
  · simp only [savePassword, if_neg (Nat.not_lt_of_le fits), dataCopied, permissionStored,
      Option.bind_eq_bind, Option.bind_some]
  · show (splice block (state.blockSize + 48) [password.permissions]).length =
      state.blockCapacity
    omega
  · show state.written.flatten ++ List.take (state.blockSize + 49) _ = _
    rw [permission, data, State.content, passwordBytes]
    simp only [List.append_assoc]

/-- A password that does not fit leaves a size that is too large. It is put behind the bytes so
far if most of it fits, and as many bytes are used of the next block as were left of this one. -/
theorem savePassword_spans (sound : state.Sound) (password : Password)
    (spans : state.blockCapacity < state.blockSize + 49)
    (saved : savePassword always state password = some next) :
    next.Sound ∧ next.blockCapacity = state.blockCapacity ∧
      state.size + state.blockSize + 50 ≤ next.size ∧
      25 ≤ next.blockSize ∧ state.blockSize + next.blockSize = state.blockCapacity ∧
      state.content <+: next.content ∧
      next.content.length = state.content.length + 2 * next.blockSize := by
  have block_length := sound.block_length
  have begun := sound.begun
  simp only [savePassword, if_pos spans, writeBlock_always, Option.bind_eq_bind,
    Option.bind_eq_some_iff] at saved
  rcases saved with ⟨block, copied, saved⟩
  have first := copy_inside copied
  have block_eq : block.length = state.block.length := by
    rw [first.2.2, length_splice]
    rw [length_slice first.2.1]
    exact first.1
  simp only [sound.kept, Bool.false_eq_true, if_false, Option.bind_eq_some_iff] at saved
  rcases saved with ⟨second, copiedAgain, third, stored, made⟩
  cases made
  have again := copy_inside copiedAgain
  have second_length : second.length = block.length := by
    rw [again.2.2, length_splice]
    rw [length_slice again.2.1]
    exact again.1
  have inside := storeBlock_inside stored
  have third_length := storeBlock_length stored
  have data_length := password.length_eq
  rw [List.length_singleton] at inside
  have taken_length : (slice password.data 0 (state.blockSize + 49 - state.blockCapacity)).length =
      state.blockSize + 49 - state.blockCapacity := length_slice first.2.1
  have before : block.take state.blockSize = state.block.take state.blockSize := by
    rw [first.2.2, splice, List.append_assoc]
    apply List.take_left'
    rw [List.length_take]
    omega
  refine ⟨⟨rfl, Nat.succ_pos _, ?_, ?_, ?_⟩, rfl, ?_, ?_, ?_, ?_, ?_⟩
  · show 48 - (state.blockSize + 49 - state.blockCapacity) + 1 ≤ state.blockCapacity
    omega
  · show third.length = state.blockCapacity
    omega
  · intro other member
    rcases List.mem_append.mp member with old | new
    · exact sound.blocks other old
    · rw [List.mem_singleton.mp new]
      exact block_eq.trans block_length
  · show _ ≤ state.size + state.blockCapacity +
      (48 - (state.blockSize + 49 - state.blockCapacity) + 1)
    omega
  · show 25 ≤ 48 - (state.blockSize + 49 - state.blockCapacity) + 1
    omega
  · show state.blockSize + (48 - (state.blockSize + 49 - state.blockCapacity) + 1) = _
    omega
  · refine ⟨block.drop state.blockSize ++
      third.take (48 - (state.blockSize + 49 - state.blockCapacity) + 1), ?_⟩
    show _ = (state.written ++ [block]).flatten ++ third.take _
    rw [State.content, ← before, List.flatten_append, List.flatten_singleton]
    simp only [List.append_assoc]
    rw [← List.append_assoc (block.take _), List.take_append_drop]
  · show ((state.written ++ [block]).flatten ++ third.take _).length = _
    rw [State.content, List.flatten_append, List.flatten_singleton]
    simp only [List.length_append, List.length_take]
    omega

/-- Every password adds more than its bytes to a size that began behind the headers. -/
theorem savePasswords_larger {passwords : List Password} (sound : state.Sound)
    (saved : savePasswords always state passwords = some next) :
    next.Sound ∧ next.blockCapacity = state.blockCapacity ∧
      state.size + 50 * passwords.length ≤ next.size := by
  induction passwords generalizing state with
  | nil =>
      cases saved
      exact ⟨sound, rfl, Nat.le_refl _⟩
  | cons password rest inductionHypothesis =>
      rw [savePasswords, Option.bind_eq_bind, Option.bind_eq_some_iff] at saved
      rcases saved with ⟨middle, savedFirst, saved⟩
      have begun := sound.begun
      have one : middle.Sound ∧ middle.blockCapacity = state.blockCapacity ∧
          state.size + state.blockSize + 49 ≤ middle.size := by
        by_cases fits : state.blockSize + 49 ≤ state.blockCapacity
        · rcases savePassword_fits sound password fits with
            ⟨reached, ran, reachedSound, -, capacity_eq, -, size_eq⟩
          rw [savedFirst, Option.some.injEq] at ran
          subst ran
          exact ⟨reachedSound, capacity_eq, by omega⟩
        · have spans := savePassword_spans sound password (Nat.lt_of_not_le fits) savedFirst
          exact ⟨spans.1, spans.2.1, by omega⟩
      rw [if_neg (by rw [one.1.kept]; exact Bool.false_ne_true)] at saved
      have later := inductionHypothesis one.1 saved
      refine ⟨later.1, later.2.1.trans one.2.1, ?_⟩
      rw [List.length_cons]
      omega

theorem startBytes_eq (saving : Saving) : startBytes saving =
    headersBytes saving.serverAge saving.passwords.length ++
      (saving.passwords.map passwordBytes).flatten := by
  simp only [startBytes, headersBytes, authorizationBytes, List.append_assoc, List.cons_append]

theorem length_passwordBytes (passwords : List Password) :
    (passwords.map passwordBytes).flatten.length = 49 * passwords.length := by
  have each : ∀ bytes ∈ passwords.map passwordBytes, bytes.length = 49 := by
    intro bytes member
    rcases List.mem_map.mp member with ⟨password, -, rfl⟩
    rw [passwordBytes, List.length_append, password.length_eq]
    rfl
  rw [length_blocks each, List.length_map, Nat.mul_comm]

theorem length_startBytes (saving : Saving) : (startBytes saving).length =
    7 + passwordCountByteCount saving.passwords.length + 49 * saving.passwords.length := by
  rw [startBytes_eq, List.length_append, length_headersBytes, length_passwordBytes]

/-- Up to one password, everything in front of the databases lies in the first block. -/
theorem saveStart_some {saving : Saving} (few : saving.passwords.length ≤ 1)
    (within : (startBytes saving).length ≤ capacity) :
    ∃ headed started, saveHeaders capacity saving.serverAge saving.passwords.length =
        some headed ∧
      savePasswords always headed saving.passwords = some started ∧ started.Sound ∧
      started.content = startBytes saving ∧ started.blockCapacity = capacity ∧
      started.size = (startBytes saving).length := by
  rw [length_startBytes] at within
  have small : passwordCountByteCount saving.passwords.length ≤ 4 := by
    rcases Nat.le_one_iff_eq_zero_or_eq_one.mp few with none | one
    · rw [none]
      decide
    · rw [one]
      decide
  have room := Nat.le_trans (Nat.le_add_right _ _) within
  obtain ⟨headed, saved, behind⟩ := saveHeaders_some saving.serverAge room small
  have blockSize := behind.blockSize_eq room
  obtain ⟨sound, content, capacity_eq, size_eq⟩ := behind
  have start := startBytes_eq saving
  have length := length_startBytes saving
  cases held : saving.passwords with
  | nil =>
      rw [held] at saved start length content size_eq blockSize
      refine ⟨headed, headed, saved, rfl, sound, ?_, capacity_eq, ?_⟩
      · rw [content, start, List.map_nil, List.flatten_nil, List.append_nil]
      · rw [size_eq, length]
        exact blockSize
  | cons password rest =>
      have single : rest = [] := by
        rw [held, List.length_cons] at few
        exact List.eq_nil_of_length_eq_zero (by omega)
      subst single
      rw [held] at saved start length content size_eq blockSize within
      have fits : headed.blockSize + 49 ≤ headed.blockCapacity := by
        rw [blockSize, capacity_eq]
        exact within
      rcases savePassword_fits sound password fits with
        ⟨started, ran, startedSound, startedContent, startedCapacity, -, startedSize⟩
      refine ⟨headed, started, saved, ?_, startedSound, ?_, startedCapacity.trans capacity_eq, ?_⟩
      · rw [savePasswords, ran]
        simp only [Option.bind_eq_bind, Option.bind_some, startedSound.kept, Bool.false_eq_true,
          if_false, savePasswords]
      · rw [startedContent, content, start, List.map_singleton, List.flatten_singleton]
      · rw [startedSize, size_eq, blockSize, length]
        rfl

/-- With more passwords, or without room for one, the size is too large. -/
theorem saveStart_larger {saving : Saving} {headed started : State}
    (fails : ¬(saving.passwords.length ≤ 1 ∧ (startBytes saving).length ≤ capacity))
    (saved : saveHeaders capacity saving.serverAge saving.passwords.length = some headed)
    (ran : savePasswords always headed saving.passwords = some started) :
    started.Sound ∧ started.blockCapacity = capacity ∧
      (startBytes saving).length < started.size := by
  have room := saveHeaders_room saved
  rw [length_startBytes] at fails ⊢
  have behind := saveHeaders_headed saved
  have blockSize := behind.blockSize_eq room.1
  obtain ⟨sound, content, capacity_eq, size_eq⟩ := behind
  cases held : saving.passwords with
  | nil =>
      rw [held] at fails room
      exact absurd ⟨Nat.zero_le _, room.1⟩ fails
  | cons password rest =>
      rw [held] at ran fails blockSize
      rw [savePasswords, Option.bind_eq_bind, Option.bind_eq_some_iff] at ran
      rcases ran with ⟨middle, first, ran⟩
      rw [List.length_cons] at fails blockSize ⊢
      by_cases fits : headed.blockSize + 49 ≤ headed.blockCapacity
      · rcases savePassword_fits sound password fits with
          ⟨reached, ranFirst, reachedSound, -, reachedCapacity, -, reachedSize⟩
        rw [first, Option.some.injEq] at ranFirst
        subst ranFirst
        rw [if_neg (by rw [reachedSound.kept]; exact Bool.false_ne_true)] at ran
        have later := savePasswords_larger reachedSound ran
        have several : 1 ≤ rest.length := by
          by_contra none
          have empty : rest.length = 0 := by omega
          rw [empty] at fails blockSize
          exact fails ⟨Nat.le_refl _, by omega⟩
        exact ⟨later.1, later.2.1.trans (reachedCapacity.trans capacity_eq), by omega⟩
      · have spans := savePassword_spans sound password (Nat.lt_of_not_le fits) first
        rw [if_neg (by rw [spans.1.kept]; exact Bool.false_ne_true)] at ran
        have later := savePasswords_larger spans.1 ran
        exact ⟨later.1, later.2.1.trans (spans.2.1.trans capacity_eq), by omega⟩

/-! ## The file -/

/-- What a file holds at a position, with zeros behind its end. -/
def extended (file : Bytes) (start count : Nat) : Bytes :=
  truncate (slice file start count) count

/-- When the whole file is left behind: at most one password, which lies in the first block with
the headers, database headers that lie in one block each, and a last byte that does not fill its
block, unless the file holds the last block already. -/
structure Emittable (capacity : Nat) (saving : Saving) : Prop where
  few : saving.passwords.length ≤ 1
  within : (startBytes saving).length ≤ capacity
  databases : DatabasesFit capacity (startBytes saving).length saving.databases
  last : capacity ∣ (fileBytes saving).length →
    extended saving.file ((fileBytes saving).length - capacity) capacity =
      (fileBytes saving).drop ((fileBytes saving).length - capacity)

theorem fileBytes_eq (saving : Saving) : fileBytes saving =
    startBytes saving ++ (saving.databases.map databaseBytes).flatten := rfl

theorem length_truncate (file : Bytes) (size : Nat) : (truncate file size).length = size := by
  rw [truncate, List.length_append, List.length_take, List.length_replicate]
  omega

theorem truncate_overwrite_inside {file bytes : Bytes} {size : Nat}
    (inside : size ≤ bytes.length) : truncate (overwrite file bytes) size = bytes.take size := by
  have none_missing : size - (overwrite file bytes).length = 0 := by
    rw [overwrite, List.length_append]
    omega
  rw [truncate, none_missing, overwrite, List.take_append_of_le_length inside,
    List.replicate_zero, List.append_nil]

theorem truncate_overwrite_beyond {file bytes : Bytes} {size : Nat}
    (beyond : bytes.length ≤ size) : truncate (overwrite file bytes) size =
      bytes ++ extended file bytes.length (size - bytes.length) := by
  have missing : size - (overwrite file bytes).length =
      size - bytes.length - (slice file bytes.length (size - bytes.length)).length := by
    rw [overwrite, slice, List.length_append, List.length_take, List.length_drop]
    omega
  have taken : (overwrite file bytes).take size =
      bytes ++ slice file bytes.length (size - bytes.length) := by
    rw [overwrite, List.take_append, List.take_of_length_le beyond]
    rfl
  have whole : (slice file bytes.length (size - bytes.length)).take (size - bytes.length) =
      slice file bytes.length (size - bytes.length) := by
    rw [slice, List.take_take, Nat.min_self]
  rw [truncate, extended, truncate, missing, taken, whole, List.append_assoc]

theorem fill_eq_capacity {position : Nat} (positive : 1 ≤ capacity) (begun : 1 ≤ position) :
    fill capacity position = capacity ↔ capacity ∣ position := by
  rw [fill]
  constructor
  · intro full
    refine ⟨(position - 1) / capacity + 1, ?_⟩
    have split := Nat.div_add_mod (position - 1) capacity
    rw [Nat.mul_add, Nat.mul_one]
    omega
  · rintro ⟨blocks, rfl⟩
    obtain ⟨before, rfl⟩ : ∃ before, blocks = before + 1 := by
      refine ⟨blocks - 1, ?_⟩
      have some_block : blocks ≠ 0 := by
        rintro rfl
        exact absurd begun (Nat.not_succ_le_zero _)
      omega
    have remainder : (capacity * (before + 1) - 1) % capacity = capacity - 1 := by
      rw [Nat.mul_add, Nat.mul_one, Nat.add_sub_assoc positive, Nat.mul_add_mod,
        Nat.mod_eq_of_lt (by omega)]
    rw [remainder]
    omega

/-- What the last flush and the cut leave of a state that holds the whole file. -/
theorem flush_whole {final : State} (sound : final.Sound) {saving : Saving}
    (content : final.content = fileBytes saving)
    (size : final.size = (fileBytes saving).length) (capacity_eq : final.blockCapacity = capacity) :
    truncate (overwrite saving.file (flushBlock always final).written.flatten)
        (flushBlock always final).size = fileBytes saving ↔
      (capacity ∣ (fileBytes saving).length →
        extended saving.file ((fileBytes saving).length - capacity) capacity =
          (fileBytes saving).drop ((fileBytes saving).length - capacity)) := by
  have begun := sound.begun
  have within := sound.within
  have block_length := sound.block_length
  have fill_eq := sound.blockSize_eq
  have length : (fileBytes saving).length = final.written.flatten.length + final.blockSize := by
    rw [← content, State.content, List.length_append, List.length_take, block_length,
      Nat.min_eq_left within]
  rw [content, capacity_eq] at fill_eq
  rw [capacity_eq] at within block_length
  rw [← fill_eq_capacity (by omega) (by omega), ← fill_eq, flushBlock, capacity_eq]
  by_cases full : final.blockSize = capacity
  · rw [if_neg (not_not_intro full), size, truncate_overwrite_beyond (by omega)]
    have front : final.written.flatten ++
        (fileBytes saving).drop final.written.flatten.length = fileBytes saving := by
      rw [← content, State.content, List.drop_left]
    have start : (fileBytes saving).length - capacity = final.written.flatten.length := by omega
    have rest : (fileBytes saving).length - final.written.flatten.length = capacity := by omega
    rw [start, rest]
    constructor
    · intro same _
      rw [← front] at same
      exact List.append_cancel_left (same.trans (by rw [front]))
    · intro same
      rw [same full]
      exact front
  · rw [if_pos full, writeBlock_always]
    refine ⟨fun _ divides => absurd divides full, fun _ => ?_⟩
    show truncate (overwrite saving.file (final.written ++ [final.block]).flatten) final.size = _
    rw [size, List.flatten_append, List.flatten_singleton,
      truncate_overwrite_inside (by rw [List.length_append]; omega), length,
      List.take_append, List.take_of_length_le (by omega), Nat.add_sub_cancel_left]
    exact content

/-- What lies in front of the databases lies in the first block, behind at most one password. -/
theorem saveData_started (bounded : capacity ≤ 65535) {saving : Saving}
    (few : saving.passwords.length ≤ 1) (within : (startBytes saving).length ≤ capacity) :
    saveData always true capacity saving = some (true, fileBytes saving) ↔
      DatabasesFit capacity (startBytes saving).length saving.databases ∧
        (capacity ∣ (fileBytes saving).length →
          extended saving.file ((fileBytes saving).length - capacity) capacity =
            (fileBytes saving).drop ((fileBytes saving).length - capacity)) := by
  rcases saveStart_some few within with
    ⟨headed, started, saved, ran, sound, content, capacity_eq, size_eq⟩
  have cases := saveDatabases_cases saving.databases sound (by omega)
  rw [capacity_eq, content] at cases
  have kept := sound.kept
  by_cases fits : DatabasesFit capacity (startBytes saving).length saving.databases
  · rcases cases.1 fits with ⟨final, dumped, appended⟩
    have whole := flush_whole appended.sound (by rw [appended.content, content, fileBytes_eq])
      (by rw [appended.size_eq, size_eq, fileBytes_eq, List.length_append])
      (appended.capacity_eq.trans capacity_eq)
    have flushed : (flushBlock always final).freed = false := by
      rw [flushBlock]
      split
      · exact appended.sound.kept
      · exact appended.sound.kept
    simp only [saveData, saved, ran, kept, dumped, flushed, Option.bind_eq_bind,
      Option.bind_some, Bool.false_eq_true, if_false, Bool.not_true, Bool.or_self,
      Option.some.injEq, Prod.mk.injEq, true_and]
    rw [whole]
    exact ⟨fun last => ⟨fits, last⟩, fun both => both.2⟩
  · have stuck := cases.2 fits
    simp only [saveData, saved, ran, kept, stuck, Option.bind_eq_bind, Option.bind_some,
      Bool.false_eq_true, if_false, Option.bind_none]
    exact ⟨nofun, fun both => absurd both.1 fits⟩

/-- A save whose writes succeed leaves the whole file, and copies nothing past a block, exactly
when the state is emittable. -/
theorem saveData_whole (bounded : capacity ≤ 65535) (saving : Saving) :
    saveData always true capacity saving = some (true, fileBytes saving) ↔
      Emittable capacity saving := by
  by_cases starts : saving.passwords.length ≤ 1 ∧ (startBytes saving).length ≤ capacity
  · rw [saveData_started bounded starts.1 starts.2]
    constructor
    · rintro ⟨fits, last⟩
      exact ⟨starts.1, starts.2, fits, last⟩
    · intro emittable
      exact ⟨emittable.databases, emittable.last⟩
  · refine ⟨fun saves => ?_, fun emittable => absurd ⟨emittable.few, emittable.within⟩ starts⟩
    exfalso
    simp only [saveData, Option.bind_eq_bind, Option.bind_eq_some_iff] at saves
    rcases saves with ⟨headed, saved, started, ran, saves⟩
    have larger := saveStart_larger starts saved ran
    simp only [larger.1.kept, Bool.false_eq_true, if_false, Option.bind_eq_some_iff] at saves
    rcases saves with ⟨final, dumped, saves⟩
    have cases := saveDatabases_cases saving.databases larger.1
      (by rw [larger.2.1]; exact bounded)
    have fits : DatabasesFit started.blockCapacity started.content.length saving.databases := by
      by_contra never
      rw [cases.2 never] at dumped
      cases dumped
    rcases cases.1 fits with ⟨again, dumpedAgain, appended⟩
    rw [dumped, Option.some.injEq] at dumpedAgain
    subst dumpedAgain
    have size_eq : (flushBlock always final).size = final.size := by
      rw [flushBlock]
      split <;> rfl
    split at saves
    · cases saves
    · rw [Option.some.injEq, Prod.mk.injEq] at saves
      have length := congrArg List.length saves.2
      rw [length_truncate, size_eq, appended.size_eq, fileBytes_eq, List.length_append] at length
      omega

/-- A server with a password and one key in a new file. -/
def sampleSaving : Saving where
  serverAge := 5
  passwords := [⟨List.replicate 48 7, 3, List.length_replicate⟩]
  databases := [⟨[0x30], 1, [generateStringValue [0x6b] ++ [5, 1]]⟩]
  file := []

theorem saveData_whole_sample : saveData always true 512 sampleSaving =
    some (true, fileBytes sampleSaving) :=
  (saveData_whole (by decide) sampleSaving).mpr
    ⟨by decide, by decide +kernel, by decide +kernel, by decide +kernel⟩

/-- A server whose file fills a block to its end. -/
def fullSaving : Saving where
  serverAge := 5
  passwords := []
  databases := [⟨[0x30], 1, [generateStringValue [0x6b] ++ 4 :: generateStringValue
    (List.replicate 490 0x61)]⟩]
  file := []

/-- The block that is full at the end is never written. -/
theorem saveData_full_block : (fileBytes fullSaving).length = 512 ∧
    saveData always true 512 fullSaving = some (true, List.replicate 512 0) ∧
    fileBytes fullSaving ≠ List.replicate 512 0 := by
  decide +kernel

end TellyDB.Database.File
