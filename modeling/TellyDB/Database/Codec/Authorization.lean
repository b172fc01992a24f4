import TellyDB.Database.File.Save.Emission
import TellyDB.Database.Read.Authorization

/-!
Owns the round trip of the authorization part. Where the end of a block parts a
password, the writer puts as many bytes behind it as it leaves room in front of it, and
the reader takes as many as are missing; these are never as many, so the two agree
exactly when no password reaches the end of the first block.
-/

namespace TellyDB.Database.Codec

open Resp Lib.Slices Lib.Positional File Read

variable {block : Bytes} {blockSize position missing : Nat} {passwords : List Password}

/-- The authorization part that `save_data` writes comes back, whatever lies behind it in the file
and whatever the memory of the block held: the passwords in their order, and the place behind them
as an offset in the block that is loaded. -/
def AuthorizationSurvives (capacity serverAge : Nat) (passwords : List Password) : Prop :=
  ∃ headed written, saveHeaders capacity serverAge passwords.length = some headed ∧
    savePasswords always headed passwords = some written ∧
    ∀ rest padding : Bytes,
      (slice (written.content ++ rest) 0 capacity ++ padding).length = capacity →
      ∃ authorization,
        getAuthorizationFromFile (loaded (written.content ++ rest) padding capacity 0) =
          some authorization ∧
        authorization.passwords = passwords ∧
        authorization.start + authorization.filled = written.content.length

/-! ## The reader in one block -/

theorem copyBlock_eq {start count : Nat} (inside : start + count ≤ block.length) :
    copyBlock block start count = some (slice block start count) := if_pos inside

theorem getElem?_slice {list : Bytes} {start count index : Nat} (inside : index < count) :
    (slice list start count)[index]? = list[start + index]? := by
  rw [slice, List.getElem?_take_of_lt inside, List.getElem?_drop]

/-- The bytes of one password. -/
theorem retrievePassword_parts {password : Password}
    (held : slice block position 49 = passwordBytes password) :
    slice block position 48 = password.data ∧ block[position + 48]? = some password.permissions := by
  constructor
  · have part : slice (slice block position 49) 0 48 = slice block position 48 :=
      slice_slice (by decide)
    rw [← part, held, slice, List.drop_zero, passwordBytes, List.take_left' password.length_eq]
  · rw [← getElem?_slice (by decide : 48 < 49), held, passwordBytes,
      List.getElem?_append_right (Nat.le_of_eq password.length_eq), password.length_eq]
    rfl

/-- The next password lies in the block. -/
theorem retrievePasswords_step {password : Password} (length : block.length = blockSize)
    (inside : position + 49 ≤ blockSize) (held : slice block position 49 = passwordBytes password) :
    retrievePasswords block blockSize (missing + 1) position passwords =
      retrievePasswords block blockSize missing (position + 49) (passwords ++ [password]) := by
  obtain ⟨data, permissions⟩ := retrievePassword_parts held
  have copied := @copyBlock_eq block position 48 (by omega)
  have dataInside : ¬blockSize < position + 48 := by omega
  have permissionsInside : ¬blockSize < position + 48 + 1 := by omega
  simp [retrievePasswords, dataInside, copied, retrievePermissions, permissionsInside, data,
    permissions, makePassword, password.length_eq]

/-- The passwords that come first in the block. -/
theorem retrievePasswords_reads (length : block.length = blockSize) (more : List Password)
    (inside : position + 49 * more.length ≤ blockSize)
    (held : slice block position (49 * more.length) = (more.map passwordBytes).flatten) :
    retrievePasswords block blockSize (missing + more.length) position passwords =
      retrievePasswords block blockSize missing (position + 49 * more.length)
        (passwords ++ more) := by
  induction more generalizing position passwords with
  | nil => simp
  | cons password rest inductionHypothesis =>
      rw [List.length_cons] at inside held
      have parts : slice block position 49 = passwordBytes password ∧
          slice block (position + 49) (49 * rest.length) = (rest.map passwordBytes).flatten := by
        rw [Nat.mul_succ, Nat.add_comm, ← slice_append, List.map_cons, List.flatten_cons] at held
        apply List.append_inj held
        rw [length_slice (by omega), passwordBytes, List.length_append, password.length_eq]
        rfl
      rw [List.length_cons, ← Nat.add_assoc, retrievePasswords_step length (by omega) parts.1,
        inductionHypothesis (by omega) parts.2]
      simp [Nat.mul_succ, Nat.add_assoc, Nat.add_comm]

/-- Every 49 bytes are a password. -/
theorem exists_passwords (count : Nat) {bytes : Bytes} (length : bytes.length = 49 * count) :
    ∃ passwords : List Password, passwords.length = count ∧
      bytes = (passwords.map passwordBytes).flatten := by
  induction count generalizing bytes with
  | zero => exact ⟨[], rfl, List.eq_nil_of_length_eq_zero length⟩
  | succ count inductionHypothesis =>
      obtain ⟨later, later_length, later_eq⟩ := @inductionHypothesis (bytes.drop 49)
        (by rw [List.length_drop]; omega)
      have data_length : (bytes.take 48).length = 48 := by
        rw [List.length_take]
        omega
      have permissions : 48 < bytes.length := by omega
      refine ⟨⟨bytes.take 48, bytes[48], data_length⟩ :: later, ?_, ?_⟩
      · rw [List.length_cons, later_length]
      · rw [List.map_cons, List.flatten_cons, ← later_eq, passwordBytes, List.take_concat_get',
          List.take_append_drop]

/-- As many passwords as the block has bytes for. -/
theorem retrievePasswords_some (length : block.length = blockSize) (count : Nat)
    (inside : position + 49 * count ≤ blockSize) :
    ∃ more : List Password, more.length = count ∧
      retrievePasswords block blockSize (missing + count) position passwords =
        retrievePasswords block blockSize missing (position + 49 * count)
          (passwords ++ more) := by
  obtain ⟨more, rfl, held⟩ := exists_passwords count
    (@length_slice _ block position (49 * count) (by omega))
  exact ⟨more, rfl, retrievePasswords_reads length more inside held⟩

/-- The end of the block parts a password, with `room` bytes in front of it. -/
theorem retrievePasswords_parted {room : Nat} (length : block.length = blockSize)
    (small : room ≤ 48) (half : 25 ≤ room) (ends : position + room = blockSize) :
    ∃ op, retrievePasswords block blockSize (missing + 1) position passwords =
        some ⟨passwords, if room = 48 then blockSize else position, op⟩ ∧
      ∀ next : Bytes, next.length = blockSize → ∃ password,
        resume next blockSize (missing + 1) passwords op =
          retrievePasswords next blockSize missing (49 - room) (passwords ++ [password]) := by
  by_cases whole : room = 48
  · subst whole
    have copied := @copyBlock_eq block position 48 (by omega)
    have data_length : (slice block position 48).length = 48 := length_slice (by omega)
    refine ⟨.permissions (slice block position 48), ?_, ?_⟩
    · simp [retrievePasswords, retrievePermissions, ends, copied]
    · intro next next_length
      have held : next[0]? = some next[0] := List.getElem?_eq_getElem (by omega)
      refine ⟨⟨slice block position 48, next[0], data_length⟩, ?_⟩
      simp [resume, held, makePassword, data_length]
  · have outside : blockSize < position + 48 := by omega
    have copied := @copyBlock_eq block position room (by omega)
    have rest : blockSize - position = room := by omega
    refine ⟨.value (slice block position room), ?_, ?_⟩
    · simp [retrievePasswords, outside, rest, copied, whole]
    · intro next next_length
      have copiedRest := @copyBlock_eq next 0 (48 - room) (by omega)
      have front_length : (slice block position room).length = room := length_slice (by omega)
      have data_length : (slice block position room ++ slice next 0 (48 - room)).length = 48 := by
        rw [List.length_append, front_length, length_slice (by omega)]
        omega
      have permissionsInside : ¬blockSize < 49 - room := by omega
      have held : next[48 - room]? = some next[48 - room] := List.getElem?_eq_getElem (by omega)
      have behind : 48 - room + 1 = 49 - room := by omega
      refine ⟨⟨_, next[48 - room], data_length⟩, ?_⟩
      simp only [resume, front_length, copiedRest, retrievePermissions, behind,
        if_neg permissionsInside, held, makePassword, dif_pos data_length, Option.bind_eq_bind,
        Option.bind_some, Nat.add_sub_cancel]

/-! ## The reader in the file -/

theorem passwordCountByteCount_le {passwordCount : Nat} :
    passwordCountByteCount passwordCount ≤ 4 ↔ passwordCount < 16 := by
  rw [passwordCountByteCount]
  by_cases none : passwordCount = 0
  · simp [none]
  · rw [if_pos none, Nat.succ_le_iff, Nat.log2_lt none]

theorem lt_byteCount {passwordCount : Nat} (some_password : passwordCount ≠ 0) :
    passwordCount < 256 ^ passwordCountByteCount passwordCount := by
  rw [passwordCountByteCount, if_pos some_password]
  calc passwordCount < 2 ^ (Nat.log2 passwordCount + 1) := Nat.lt_log2_self
    _ ≤ 256 ^ (Nat.log2 passwordCount + 1) := Nat.pow_le_pow_left (by decide) _

/-- The headers hold the password count. -/
theorem headersBytes_count {serverAge passwordCount : Nat}
    (headers : headersBytes serverAge passwordCount <+: block) (small : passwordCount < 16) :
    ∃ byteCount : UInt8, block[6]? = some byteCount ∧
      byteCount.toNat = passwordCountByteCount passwordCount ∧
      copyBlock block 7 (passwordCountByteCount passwordCount) =
        some (littleEndian (passwordCountByteCount passwordCount) passwordCount) := by
  have few := passwordCountByteCount_le.mpr small
  have length := length_headersBytes serverAge passwordCount
  have within := headers.length_le
  have front_length : (magic ++ littleEndian 4 serverAge).length = 6 := by simp [magic]
  refine ⟨UInt8.ofNat (passwordCountByteCount passwordCount), ?_, ?_, ?_⟩
  · obtain ⟨rest, rfl⟩ := headers
    rw [List.getElem?_append_left (by omega), headersBytes,
      List.getElem?_append_right (Nat.le_of_eq front_length), front_length]
    rfl
  · apply UInt8.toNat_ofNat_of_lt'
    exact Nat.lt_of_le_of_lt few (by decide)
  · rw [copyBlock_eq (by omega), slice_of_prefix headers (by omega), slice, headersBytes,
      List.append_cons, List.drop_left' (by rw [List.length_append, front_length]; rfl)]
    exact congrArg some (List.take_of_length_le (Nat.le_of_eq (length_littleEndian _ _)))

/-- The loop over the passwords begins behind the headers. -/
theorem getAuthorizationFromFile_some {arguments : GenericArguments}
    {serverAge passwordCount : Nat} {retrieval : Retrieval}
    (headers : headersBytes serverAge passwordCount <+: arguments.block)
    (some_password : passwordCount ≠ 0) (small : passwordCount < 16)
    (retrieved : retrievePasswords arguments.block arguments.blockSize passwordCount
      (7 + passwordCountByteCount passwordCount) [] = some retrieval) :
    getAuthorizationFromFile arguments =
      retrieveBlocks passwordCount arguments.file.length arguments 0 0 retrieval := by
  obtain ⟨byteCount, held, byteCount_eq, copied⟩ := headersBytes_count headers small
  have few := passwordCountByteCount_le.mpr small
  have count := ofLittleEndian_littleEndian (lt_byteCount some_password)
  simp only [getAuthorizationFromFile, held, byteCount_eq, copied, count, Option.bind_eq_bind,
    Option.bind_some, if_neg (Nat.not_lt_of_le few), if_neg some_password, retrieved]

theorem getAuthorizationFromFile_zero {arguments : GenericArguments} {serverAge : Nat}
    (headers : headersBytes serverAge 0 <+: arguments.block) :
    getAuthorizationFromFile arguments = some ⟨[], 0, 7 % arguments.blockSize⟩ := by
  obtain ⟨byteCount, held, byteCount_eq, copied⟩ := headersBytes_count headers (by decide)
  have none : passwordCountByteCount 0 = 0 := rfl
  rw [none] at byteCount_eq copied
  simp [getAuthorizationFromFile, held, byteCount_eq, copied, littleEndian, ofLittleEndian]

/-- All passwords are retrieved. -/
theorem retrieveBlocks_done {passwordCount fuel start total : Nat} {arguments : GenericArguments}
    {retrieval : Retrieval} (complete : retrieval.passwords.length = passwordCount) :
    retrieveBlocks passwordCount fuel arguments start total retrieval =
      some ⟨retrieval.passwords, start, (total + retrieval.position) % arguments.blockSize⟩ := by
  rw [retrieveBlocks.eq_def]
  exact if_pos complete

/-- The next block is loaded. -/
theorem retrieveBlocks_next {passwordCount fuel start total : Nat} {arguments : GenericArguments}
    {retrieval next : Retrieval} (incomplete : retrieval.passwords.length ≠ passwordCount)
    (more : arguments.offset < arguments.file.length) (positive : 1 ≤ arguments.blockSize)
    (resumed : resume (slice arguments.file arguments.offset arguments.blockSize ++
        arguments.block.drop (slice arguments.file arguments.offset arguments.blockSize).length)
      arguments.blockSize (passwordCount - retrieval.passwords.length) retrieval.passwords
      retrieval.op = some next) (complete : next.passwords.length = passwordCount) :
    retrieveBlocks passwordCount (fuel + 1) arguments start total retrieval =
      some ⟨next.passwords, arguments.offset,
        (total + retrieval.position + next.position) % arguments.blockSize⟩ := by
  have some_bytes : slice arguments.file arguments.offset arguments.blockSize ≠ [] := by
    apply List.ne_nil_of_length_pos
    rw [slice, List.length_take, List.length_drop]
    omega
  rw [retrieveBlocks]
  simp only [if_neg incomplete, if_neg some_bytes, resumed, Option.bind_eq_bind, Option.bind_some]
  exact retrieveBlocks_done complete

/-- Whatever passwords a file holds, where the end of its first block parts one of them the place
behind them is not what `at` adds up to. -/
theorem getAuthorizationFromFile_parted {content : Bytes} {capacity serverAge early late room : Nat}
    (headers : headersBytes serverAge (early + 1 + late) <+: content)
    (small : early + 1 + late < 16) (bounded : room ≤ 48) (half : 25 ≤ room)
    (ends : 7 + passwordCountByteCount (early + 1 + late) + 49 * early + room = capacity)
    (beyond : capacity < content.length) (inside : room + 49 * late ≤ capacity) :
    ∃ passwords, getAuthorizationFromFile (loaded content [] capacity 0) =
      some ⟨passwords, capacity,
        ((if room = 48 then capacity else capacity - room) + (49 - room + 49 * late)) %
          capacity⟩ := by
  have block_length : (slice content 0 capacity ++ []).length = capacity := by
    rw [List.append_nil, length_slice (by omega)]
  have inBlock : headersBytes serverAge (early + 1 + late) <+: slice content 0 capacity ++ [] := by
    rw [List.append_nil, slice, List.drop_zero, List.prefix_take_iff, length_headersBytes]
    exact ⟨headers, by omega⟩
  -- the passwords in front of the end of the block, then the parted one
  obtain ⟨first, first_length, reads⟩ :=
    @retrievePasswords_some _ capacity (7 + passwordCountByteCount (early + 1 + late)) (late + 1) []
      block_length early (by omega)
  obtain ⟨op, stops, resumes⟩ :=
    @retrievePasswords_parted _ capacity _ late first _ block_length bounded half ends
  rw [List.nil_append, stops, show late + 1 + early = early + 1 + late by omega] at reads
  -- the rest of it and the passwords behind it, in the next block
  have next_length : (slice content capacity capacity ++ (slice content 0 capacity ++ []).drop
      (slice content capacity capacity).length).length = capacity := by
    rw [List.length_append, List.length_drop, block_length, slice, List.length_take,
      List.length_drop]
    omega
  obtain ⟨password, resumed⟩ := resumes _ next_length
  obtain ⟨more, more_length, rest⟩ :=
    @retrievePasswords_some _ capacity (49 - room) 0 (first ++ [password]) next_length late (by omega)
  rw [Nat.zero_add, retrievePasswords] at rest
  have offset : (slice content 0 capacity).length = capacity := length_slice (by omega)
  obtain ⟨fuel, fuel_eq⟩ : ∃ fuel, content.length = fuel + 1 := ⟨content.length - 1, by omega⟩
  refine ⟨first ++ [password] ++ more, ?_⟩
  rw [getAuthorizationFromFile_some inBlock (by omega) small reads]
  show retrieveBlocks _ content.length _ _ _ _ = _
  rw [fuel_eq, @retrieveBlocks_next _ _ _ _ _ _
    ⟨first ++ [password] ++ more, 49 - room + 49 * late, .none⟩ (by simp only; omega)
    (by simp only [loaded]; omega) (by simp only [loaded]; omega)]
  · have front : 7 + passwordCountByteCount (early + 1 + late) + 49 * early = capacity - room := by
      omega
    simp [loaded, offset, front]
  · simp only [loaded, offset]
    rw [show early + 1 + late - first.length = late + 1 by omega, resumed, rest]
  · simp only [List.length_append, List.length_singleton]
    omega

/-! ## The writer -/

/-- Passwords that fit into the block. -/
theorem savePasswords_fits {state : State} (sound : state.Sound) {passwords : List Password}
    (fits : state.blockSize + 49 * passwords.length ≤ state.blockCapacity) :
    ∃ next, savePasswords always state passwords = some next ∧
      next.content = state.content ++ (passwords.map passwordBytes).flatten := by
  induction passwords generalizing state with
  | nil => exact ⟨state, rfl, by simp⟩
  | cons password rest inductionHypothesis =>
      rw [List.length_cons] at fits
      obtain ⟨middle, saved, middleSound, content, capacity_eq, blockSize_eq, -⟩ :=
        savePassword_fits sound password (by omega)
      obtain ⟨next, ran, whole⟩ := inductionHypothesis middleSound (by omega)
      refine ⟨next, ?_, ?_⟩
      · simp [savePasswords, saved, middleSound.kept, ran]
      · rw [whole, content, List.map_cons, List.flatten_cons, List.append_assoc]

/-- The state behind the password that the end of the block parts, with the passwords in front of
it and behind it. -/
structure Parted (state : State) (count early late : Nat) (next : State) : Prop where
  count_eq : early + 1 + late = count
  sound : next.Sound
  capacity_eq : next.blockCapacity = state.blockCapacity
  half : 25 ≤ next.blockSize
  bounded : next.blockSize ≤ 48
  ends : state.blockSize + 49 * early + next.blockSize = state.blockCapacity
  extends_content : state.content <+: next.content
  length : next.content.length = state.content.length + 49 * early + 2 * next.blockSize

theorem savePasswords_parts {state written : State} (sound : state.Sound)
    {passwords : List Password}
    (beyond : state.blockCapacity < state.blockSize + 49 * passwords.length)
    (saved : savePasswords always state passwords = some written) :
    ∃ early late next, Parted state passwords.length early late.length next ∧
      savePasswords always next late = some written := by
  induction passwords generalizing state with
  | nil => exact absurd sound.within (Nat.not_le_of_lt beyond)
  | cons password rest inductionHypothesis =>
      rw [List.length_cons] at beyond
      rw [savePasswords, Option.bind_eq_bind, Option.bind_eq_some_iff] at saved
      obtain ⟨middle, savedFirst, saved⟩ := saved
      by_cases fits : state.blockSize + 49 ≤ state.blockCapacity
      · obtain ⟨again, ran, middleSound, content, capacity_eq, blockSize_eq, -⟩ :=
          savePassword_fits sound password fits
        obtain rfl : middle = again := Option.some.inj (savedFirst.symm.trans ran)
        rw [if_neg (by rw [middleSound.kept]; exact Bool.false_ne_true)] at saved
        obtain ⟨early, late, next, parted, later⟩ := inductionHypothesis middleSound (by omega) saved
        have count := parted.count_eq
        have ends := parted.ends
        have length := parted.length
        have password_length : (passwordBytes password).length = 49 := by
          rw [passwordBytes, List.length_append, password.length_eq]
          rfl
        rw [content, List.length_append, password_length] at length
        refine ⟨early + 1, late, next, ⟨?_, parted.sound, parted.capacity_eq.trans capacity_eq,
          parted.half, parted.bounded, by omega, ?_, by omega⟩, later⟩
        · rw [List.length_cons]
          omega
        · apply List.IsPrefix.trans _ parted.extends_content
          rw [content]
          exact List.prefix_append _ _
      · obtain ⟨middleSound, capacity_eq, -, half, ends, extends_content, length⟩ :=
          savePassword_spans sound password (Nat.lt_of_not_le fits) savedFirst
        rw [if_neg (by rw [middleSound.kept]; exact Bool.false_ne_true)] at saved
        refine ⟨0, rest, middle, ⟨?_, middleSound, capacity_eq, half, by omega, by omega,
          extends_content, by omega⟩, saved⟩
        rw [List.length_cons]
        omega

/-- A parted password leaves no room for half of another one. -/
theorem Parted.late_fits {capacity serverAge count early late : Nat} {headed next written : State}
    (behind : Headed capacity serverAge count headed)
    (room : 7 + passwordCountByteCount count ≤ capacity) (few : passwordCountByteCount count ≤ 4)
    (parted : Parted headed count early late next) {rest : List Password}
    (rest_length : rest.length = late) (saved : savePasswords always next rest = some written) :
    next.blockSize + 49 * late ≤ capacity := by
  have blockSize_eq := behind.blockSize_eq room
  have capacity_eq := parted.capacity_eq
  have ends := parted.ends
  have bounded := parted.bounded
  rw [behind.capacity_eq] at capacity_eq ends
  by_contra beyond
  obtain ⟨again, lateAgain, last, partedAgain, -⟩ :=
    savePasswords_parts parted.sound (by omega) saved
  have endsAgain := partedAgain.ends
  have half := partedAgain.half
  have boundedAgain := partedAgain.bounded
  omega

/-! ## The round trip -/

variable {capacity serverAge : Nat}

/-- Passwords that fit into the block behind the headers. -/
theorem passwords_fit {headed : State} (behind : Headed capacity serverAge passwords.length headed)
    (within : 7 + passwordCountByteCount passwords.length + 49 * passwords.length ≤ capacity) :
    ∃ written, savePasswords always headed passwords = some written ∧
      written.content =
        headersBytes serverAge passwords.length ++ (passwords.map passwordBytes).flatten := by
  have blockSize_eq := behind.blockSize_eq (by omega)
  rw [← behind.content]
  exact savePasswords_fits behind.sound (by rw [blockSize_eq, behind.capacity_eq]; exact within)

/-- Passwords that lie in the first block. -/
theorem getAuthorizationFromFile_whole {rest padding : Bytes} (few : passwords.length < 16)
    (within : 7 + passwordCountByteCount passwords.length + 49 * passwords.length ≤ capacity)
    (filled : (slice (headersBytes serverAge passwords.length ++
      (passwords.map passwordBytes).flatten ++ rest) 0 capacity ++ padding).length = capacity) :
    getAuthorizationFromFile (loaded (headersBytes serverAge passwords.length ++
        (passwords.map passwordBytes).flatten ++ rest) padding capacity 0) =
      some ⟨passwords, 0,
        (7 + passwordCountByteCount passwords.length + 49 * passwords.length) % capacity⟩ := by
  have headers_length := length_headersBytes serverAge passwords.length
  have length := length_passwordBytes passwords
  have inBlock : headersBytes serverAge passwords.length ++ (passwords.map passwordBytes).flatten <+:
      slice (headersBytes serverAge passwords.length ++ (passwords.map passwordBytes).flatten ++
        rest) 0 capacity ++ padding := by
    apply List.IsPrefix.trans _ (List.prefix_append _ _)
    rw [slice, List.drop_zero, List.prefix_take_iff, List.length_append]
    exact ⟨List.prefix_append _ _, by omega⟩
  have headers := (List.prefix_append _ _).trans inBlock
  by_cases none : passwords.length = 0
  · obtain rfl := List.eq_nil_of_length_eq_zero none
    exact getAuthorizationFromFile_zero headers
  · have held : slice (slice (headersBytes serverAge passwords.length ++
        (passwords.map passwordBytes).flatten ++ rest) 0 capacity ++ padding)
          (7 + passwordCountByteCount passwords.length) (49 * passwords.length) =
        (passwords.map passwordBytes).flatten := by
      calc _ = slice (headersBytes serverAge passwords.length ++
              (passwords.map passwordBytes).flatten)
            (7 + passwordCountByteCount passwords.length) (49 * passwords.length) :=
            slice_of_prefix inBlock (by rw [List.length_append]; omega)
        _ = (passwords.map passwordBytes).flatten := by
            rw [slice, ← headers_length, List.drop_left, List.take_of_length_le (by omega)]
    have reads :=
      @retrievePasswords_reads _ capacity _ 0 [] filled passwords within held
    rw [Nat.zero_add, List.nil_append, retrievePasswords] at reads
    refine (getAuthorizationFromFile_some headers none few reads).trans
      ((retrieveBlocks_done (by rfl)).trans ?_)
    rw [Nat.zero_add]
    rfl

/-- Passwords that end in front of the end of the first block. -/
theorem authorization_within (few : passwords.length < 16)
    (within : 7 + passwordCountByteCount passwords.length + 49 * passwords.length < capacity) :
    AuthorizationSurvives capacity serverAge passwords := by
  have small := passwordCountByteCount_le.mpr few
  obtain ⟨headed, saved, behind⟩ :=
    @saveHeaders_some capacity serverAge passwords.length (by omega) small
  obtain ⟨written, ran, content⟩ := passwords_fit behind (Nat.le_of_lt within)
  refine ⟨headed, written, saved, ran, fun rest padding filled => ?_⟩
  rw [content] at filled ⊢
  refine ⟨_, getAuthorizationFromFile_whole few (Nat.le_of_lt within) filled, rfl, ?_⟩
  rw [List.length_append, length_headersBytes, length_passwordBytes, Nat.mod_eq_of_lt within,
    Nat.zero_add]

/-- From 16 passwords on, the count is copied from behind the variable that holds it. -/
theorem authorization_many (many : 16 ≤ passwords.length) :
    ¬AuthorizationSurvives capacity serverAge passwords := by
  rintro ⟨headed, -, saved, -⟩
  have few := passwordCountByteCount_le.mp (saveHeaders_room saved).2
  omega

/-- No offset in a block stands for the end of a block that the passwords fill. -/
theorem authorization_full (few : passwords.length < 16)
    (full : 7 + passwordCountByteCount passwords.length + 49 * passwords.length = capacity) :
    ¬AuthorizationSurvives capacity serverAge passwords := by
  rintro ⟨headed, written, saved, ran, reads⟩
  obtain ⟨again, ranAgain, content⟩ :=
    passwords_fit (saveHeaders_headed saved) (Nat.le_of_eq full)
  obtain rfl := Option.some.inj (ran.symm.trans ranAgain)
  have length : written.content.length = capacity := by
    rw [content, List.length_append, length_headersBytes, length_passwordBytes, full]
  have filled : (slice (written.content ++ []) 0 capacity ++ []).length = capacity := by
    rw [List.append_nil, List.append_nil, length_slice (by omega)]
  obtain ⟨authorization, read, -, offset⟩ := reads [] [] filled
  rw [content] at read filled
  rw [getAuthorizationFromFile_whole few (Nat.le_of_eq full) filled, full, Nat.mod_self] at read
  rw [← Option.some.inj read, length] at offset
  simp only at offset
  omega

/-- The reader counts as many bytes of the parted password as it misses, the writer as many as it
leaves room for, and no block is as large as the difference. -/
theorem missed_place {bits early room late : Nat} (large : 64 ≤ capacity) (few : bits ≤ 4)
    (ends : 7 + bits + 49 * early + room = capacity) (half : 25 ≤ room) (bounded : room ≤ 48) :
    capacity + ((if room = 48 then capacity else capacity - room) + (49 - room + 49 * late)) %
      capacity ≠ capacity + room + 49 * late := by
  intro offset
  have one_before : 1 ≤ early := by omega
  generalize total_eq : (if room = 48 then capacity else capacity - room) +
    (49 - room + 49 * late) = total at offset
  have divided := Nat.div_add_mod total capacity
  rcases Nat.eq_zero_or_pos (total / capacity) with zero | positive
  · rw [zero] at divided
    split at total_eq <;> omega
  · have whole := Nat.le_mul_of_pos_right capacity positive
    split at total_eq <;> omega

/-- Where the end of the first block parts a password, the place behind the passwords is missed. -/
theorem authorization_parted (large : 64 ≤ capacity) (few : passwords.length < 16)
    (beyond : capacity < 7 + passwordCountByteCount passwords.length + 49 * passwords.length) :
    ¬AuthorizationSurvives capacity serverAge passwords := by
  rintro ⟨headed, written, saved, ran, reads⟩
  have behind := saveHeaders_headed saved
  have room := saveHeaders_room saved
  have blockSize_eq := behind.blockSize_eq room.1
  have capacity_eq := behind.capacity_eq
  obtain ⟨early, late, next, parted, later⟩ := savePasswords_parts behind.sound (by omega) ran
  have inside := parted.late_fits behind room.1 room.2 rfl later
  obtain ⟨again, ranAgain, content⟩ := savePasswords_fits parted.sound
    (by rw [parted.capacity_eq, capacity_eq]; exact inside)
  obtain rfl := Option.some.inj (later.symm.trans ranAgain)
  have count_eq := parted.count_eq
  have ends := parted.ends
  have half := parted.half
  have bounded := parted.bounded
  have length : written.content.length = capacity + next.blockSize + 49 * late.length := by
    rw [content, List.length_append, length_passwordBytes, parted.length, behind.content,
      length_headersBytes]
    omega
  have headers : headersBytes serverAge (early + 1 + late.length) <+: written.content := by
    rw [count_eq, ← behind.content, content]
    exact parted.extends_content.trans (List.prefix_append _ _)
  have filled : (slice (written.content ++ []) 0 capacity ++ []).length = capacity := by
    rw [List.append_nil, List.append_nil, length_slice (by omega)]
  obtain ⟨found, read⟩ := getAuthorizationFromFile_parted headers (by omega) bounded half
    (by rw [count_eq]; omega) (by omega) inside
  obtain ⟨authorization, readAgain, -, offset⟩ := reads [] [] filled
  rw [List.append_nil, read] at readAgain
  rw [← Option.some.inj readAgain, length] at offset
  rw [blockSize_eq, capacity_eq] at ends
  apply missed_place large room.2 ends half bounded
  rw [offset, Nat.add_assoc]

/-- The passwords and the place behind them come back exactly when there are fewer than 16 of them
and they end in front of the end of the first block. -/
theorem authorization_codec (large : 64 ≤ capacity) (serverAge : Nat) (passwords : List Password) :
    AuthorizationSurvives capacity serverAge passwords ↔
      passwords.length < 16 ∧
        7 + passwordCountByteCount passwords.length + 49 * passwords.length < capacity := by
  constructor
  · intro survives
    have few : passwords.length < 16 := by
      by_contra many
      exact authorization_many (Nat.le_of_not_lt many) survives
    refine ⟨few, ?_⟩
    rcases Nat.lt_trichotomy
      (7 + passwordCountByteCount passwords.length + 49 * passwords.length) capacity with
      within | full | beyond
    · exact within
    · exact absurd survives (authorization_full few full)
    · exact absurd survives (authorization_parted large few beyond)
  · rintro ⟨few, within⟩
    exact authorization_within few within

/-- A password with some permissions. -/
def samplePassword : Password := ⟨List.replicate 48 0x61, 1, List.length_replicate⟩

theorem authorization_codec_one : AuthorizationSurvives 64 5 [samplePassword] :=
  (authorization_codec (Nat.le_refl 64) 5 [samplePassword]).mpr ⟨by decide, by decide⟩

/-- The count of 16 passwords takes five bytes of a variable of four, and the second of two
passwords is parted by the end of a block of 64 bytes. -/
theorem authorization_lost :
    ¬AuthorizationSurvives 4096 5 (List.replicate 16 samplePassword) ∧
      ¬AuthorizationSurvives 64 5 (List.replicate 2 samplePassword) :=
  ⟨authorization_many (by decide), authorization_parted (Nat.le_refl 64) (by decide) (by decide)⟩

end TellyDB.Database.Codec
