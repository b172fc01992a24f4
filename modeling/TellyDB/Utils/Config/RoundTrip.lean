import TellyDB.Commands.Arguments
import TellyDB.Utils.Config.Lines
import Mathlib.Data.Nat.GCD.Basic

/-!
Owns what `parse_config` makes of the text that `get_config_string` prints: which fields come back,
and where the setters store on the way.
-/

namespace TellyDB.Utils.Configuration

open Commands (isSpace cString cString_append)
open Lib.ByteMemory Lib.Positional Resp

/-! ## Printed values -/

theorem valueOf_clean {value : Bytes} (clean : ∀ c ∈ value, c ≠ 0x20 ∧ c ≠ 0) :
    valueOf value = value := by
  rw [valueOf, List.filter_eq_self]
  intro c member
  simpa using clean c member

theorem valueOf_space (value : Bytes) : valueOf (0x20 :: value) = valueOf value := rfl

theorem valueOf_append (one other : Bytes) :
    valueOf (one ++ other) = valueOf one ++ valueOf other :=
  List.filter_append ..

theorem digit_clean {c : UInt8} (digit : isDigitByte c = true) :
    c ≠ 0x20 ∧ c ≠ 0 ∧ c ≠ 0x0a ∧ c ≠ 0x2d ∧ c ≠ 0x2b ∧ isSpace c = false := by
  have apart : ∀ other : UInt8, isDigitByte other = false → c ≠ other := by
    rintro other noDigit rfl
    rw [digit] at noDigit
    cases noDigit
  have least : (0x30 : UInt8) ≤ c := (of_decide_eq_true digit).1
  refine ⟨apart _ rfl, apart _ rfl, apart _ rfl, apart _ rfl, apart _ rfl, decide_eq_false ?_⟩
  rintro (same | ⟨-, small⟩)
  · exact apart _ rfl same
  · exact absurd (UInt8.le_trans least small) (by decide)

theorem valueOf_decimal (number : Nat) : valueOf (decimal number) = decimal number :=
  valueOf_clean fun c member =>
    ⟨(digit_clean (decimal_digits number c member)).1,
      (digit_clean (decimal_digits number c member)).2.1⟩

theorem valueOf_numeral (number : Int) : valueOf (numeral number) = numeral number := by
  rw [numeral]
  split
  · rw [valueOf, List.filter_cons, if_pos (by decide)]
    exact congrArg (List.cons 0x2d) (valueOf_decimal _)
  · exact valueOf_decimal _

theorem scanNumber_literal {digits : Bytes} (literal : IsLiteral digits) :
    scanNumber digits = some (false, literalValue digits, []) := by
  obtain ⟨nonempty, all⟩ := literal
  obtain ⟨first, rest, rfl⟩ := List.exists_cons_of_ne_nil nonempty
  obtain ⟨-, -, -, minus, plus, space⟩ := digit_clean (all first (List.mem_cons_self ..))
  have taken : (first :: rest).takeWhile isDigitByte = first :: rest :=
    List.takeWhile_eq_self_iff.mpr all
  have left : (first :: rest).dropWhile isDigitByte = [] := List.dropWhile_eq_nil_iff.mpr all
  rw [scanNumber, List.dropWhile_cons_of_neg (by rw [space]; decide)]
  simp only [List.head?_cons, Option.some_beq_some, beq_eq_false_iff_ne.mpr minus,
    beq_eq_false_iff_ne.mpr plus, Bool.or_self, Bool.false_eq_true, if_false, taken, left,
    reduceCtorEq]

theorem scanNumber_minus {digits : Bytes} (literal : IsLiteral digits) :
    scanNumber (0x2d :: digits) = some (true, literalValue digits, []) := by
  obtain ⟨nonempty, all⟩ := literal
  have taken : digits.takeWhile isDigitByte = digits := List.takeWhile_eq_self_iff.mpr all
  have left : digits.dropWhile isDigitByte = [] := List.dropWhile_eq_nil_iff.mpr all
  rw [scanNumber, List.dropWhile_cons_of_neg (by decide)]
  simp only [List.head?_cons, beq_self_eq_true, Bool.true_or, if_true, List.tail_cons, taken, left,
    if_neg nonempty]

theorem strtoull_decimal {number : Nat} (small : number < 2 ^ 64) :
    strtoull (decimal number) = (number, []) := by
  rw [strtoull, scanNumber_literal (isLiteral_decimal number), literalValue_decimal]
  simp only [if_pos small, Bool.false_eq_true, if_false]

theorem strtoll_literal {digits : Bytes} (literal : IsLiteral digits) :
    strtoll digits = (min (2 ^ 63 - 1) (literalValue digits : Int), []) := by
  rw [strtoll, scanNumber_literal literal]
  simp only [Bool.false_eq_true, if_false]

theorem strtoll_nil : strtoll [] = (0, []) := rfl

theorem strtoll_numeral {number : Int} (least : -2 ^ 63 ≤ number) (most : number < 2 ^ 63) :
    strtoll (numeral number) = (number, []) := by
  rw [numeral]
  split
  · rw [strtoll, scanNumber_minus (isLiteral_decimal _), literalValue_decimal]
    simp only [if_true, Prod.mk.injEq, and_true]
    omega
  · rw [strtoll_literal (isLiteral_decimal _), literalValue_decimal]
    simp only [Prod.mk.injEq, and_true]
    omega

theorem decimal_head (number : Nat) : (decimal number).head? ≠ some 0x2d := by
  intro head
  obtain ⟨rest, same⟩ := List.head?_eq_some_iff.mp head
  have digit := decimal_digits number 0x2d (by rw [same]; exact List.mem_cons_self ..)
  exact absurd digit (by decide)

/-! ## The lines that are printed -/

/-- A string that one line holds: no space, no newline and no NUL. -/
def Word (limit : Nat) (words : Bytes) : Prop :=
  words.length ≤ limit ∧ ∀ c ∈ words, c ≠ 0x20 ∧ c ≠ 0x0a ∧ c ≠ 0

/-- The limits of the fields. -/
structure WithinLimits (conf : Config) : Prop where
  port : conf.port < 2 ^ 16
  maxClients : conf.maxClients < 2 ^ 16
  maxTransactionBlocks : conf.maxTransactionBlocks < 2 ^ 32
  allowedLogLevels : conf.allowedLogLevels < 16
  maxLogLines : conf.maxLogLines = -1 ∨ 0 < conf.maxLogLines ∧ conf.maxLogLines < 2 ^ 31
  logFile : Word 48 conf.logFile
  dataFile : Word 48 conf.dataFile
  databaseName : Word 64 conf.databaseName
  autosaveSeconds : conf.autosaveSeconds < 2 ^ 32
  autosaveCount : conf.autosaveCount < 2 ^ 32
  expireSeconds : conf.expireSeconds < 2 ^ 32
  expireSize : conf.expireSize < 2 ^ 32
  cert : Word 48 conf.cert
  privateKey : Word 48 conf.privateKey

/-- The values that are printed, in the order of the entries. -/
def printedValues (conf : Config) : List Bytes :=
  [decimal conf.port, decimal conf.maxClients, decimal conf.maxTransactionBlocks,
    getAllowedLogLevels conf.allowedLogLevels, numeral conf.maxLogLines, conf.logFile,
    decimal conf.autosaveSeconds ++ 0x20 :: decimal conf.autosaveCount, conf.dataFile,
    conf.databaseName, printSigned conf.expireSize, printSigned conf.expireSeconds,
    text (if conf.tls then "true" else "false"), conf.cert, conf.privateKey]

/-- The keys that are printed, with what stands behind them. -/
def printedSettings (conf : Config) : List (ConfigEntry × Bytes) :=
  entries.zip ((printedValues conf).map (List.cons 0x20))

/-- Every blank line stands before a comment, so all keys are set. -/
theorem effective_configLines (conf : Config) :
    effective (configLines conf) = printedSettings conf := rfl

/-- What can be accepted of the printed lines. -/
def Readable (conf : Config) : Prop :=
  conf.databaseName.length ≤ 48 ∧ conf.expireSize < 2 ^ 31 ∧ conf.expireSeconds < 2 ^ 31

variable {conf : Config}

theorem word_value {limit : Nat} {words : Bytes} (word : Word limit words) :
    valueOf (0x20 :: words) = words :=
  valueOf_clean fun c member => ⟨(word.2 c member).1, (word.2 c member).2.2⟩

theorem accepts_uint {entry : ConfigEntry} (uint : entry.setter = .uint) {number : Nat}
    (small : number < 2 ^ 64) : Accepts (entry, 0x20 :: decimal number) := by
  have short : (decimal number).length ≤ 20 := (length_decimal_le_iff (by decide)).mpr
    (Nat.lt_of_lt_of_le small (by decide))
  rw [Accepts, valueOf_space, valueOf_decimal]
  refine ⟨Nat.le_trans short (by decide), ?_⟩
  simp only [uint, Setter.run, setUint, if_neg (decimal_head number), strtoull_decimal small]
  rfl

theorem printSigned_small {word : Nat} (small : word < 2 ^ 31) :
    printSigned word = decimal word := by
  rw [printSigned, signed, if_pos small, numeral, if_neg (by omega)]
  rfl

theorem accepts_signed {entry : ConfigEntry} (uint : entry.setter = .uint) {word : Nat}
    (bound : word < 2 ^ 32) : Accepts (entry, 0x20 :: printSigned word) ↔ word < 2 ^ 31 := by
  constructor
  · intro accepts
    by_contra large
    have minus : (printSigned word).head? = some 0x2d := by
      rw [printSigned, signed, if_neg large, numeral, if_pos (by omega)]
      rfl
    have taken := accepts.2
    rw [valueOf_space, printSigned, valueOf_numeral, ← printSigned] at taken
    simp only [uint, Setter.run, setUint, if_pos minus] at taken
    cases taken
  · intro small
    rw [printSigned_small small]
    exact accepts_uint uint (by omega)

theorem accepts_str {entry : ConfigEntry} (str : entry.setter = .str) {limit : Nat} {words : Bytes}
    (word : Word limit words) : Accepts (entry, 0x20 :: words) ↔ words.length ≤ 48 := by
  rw [Accepts, word_value word, str]
  exact and_iff_left rfl

/-- What the line of the autosave leaves of its two numbers: the digits of both. -/
theorem autosave_value (seconds count : Nat) :
    valueOf (0x20 :: (decimal seconds ++ 0x20 :: decimal count)) =
      decimal seconds ++ decimal count := by
  rw [valueOf_space, valueOf_append, valueOf_space, valueOf_decimal, valueOf_decimal]

theorem isLiteral_append (seconds count : Nat) : IsLiteral (decimal seconds ++ decimal count) :=
  ⟨List.append_ne_nil_of_left_ne_nil (decimal_ne_nil seconds) _, fun c member =>
    (List.mem_append.mp member).elim (decimal_digits seconds c) (decimal_digits count c)⟩

theorem length_decimal_le {number : Nat} (small : number < 2 ^ 32) :
    (decimal number).length ≤ 10 :=
  (length_decimal_le_iff (by decide)).mpr (Nat.lt_of_lt_of_le small (by decide))

theorem accepts_autosave {entry : ConfigEntry} (autosave : entry.setter = .autosave)
    {seconds count : Nat} (small : seconds < 2 ^ 32) (smallCount : count < 2 ^ 32) :
    Accepts (entry, 0x20 :: (decimal seconds ++ 0x20 :: decimal count)) := by
  have short := length_decimal_le small
  have shortCount := length_decimal_le smallCount
  rw [Accepts, autosave_value, autosave]
  constructor
  · rw [List.length_append]
    omega
  · simp only [Setter.run, setAutosave, strtoll_literal (isLiteral_append seconds count),
      strtoll_nil]
    rfl

theorem accepts_numeral {entry : ConfigEntry} (int : entry.setter = .int) {number : Int}
    (least : -2 ^ 31 ≤ number) (most : number < 2 ^ 31) :
    Accepts (entry, 0x20 :: numeral number) := by
  have short : (decimal number.natAbs).length ≤ 10 := length_decimal_le (by omega)
  rw [Accepts, valueOf_space, valueOf_numeral, int]
  constructor
  · rw [numeral]
    split
    · rw [List.length_cons]
      omega
    · omega
  · simp only [Setter.run, setInt, strtoll_numeral (by omega : -2 ^ 63 ≤ number) (by omega)]
    rfl

/-- The level that a letter stands for. -/
def levelOf (id : UInt8) : UInt8 :=
  ((logLevelsMap.find? fun level => level.1 == id).map Prod.snd).getD 0

/-- The letters of the levels are taken, and give the levels back. -/
theorem levels_read : ∀ levels < 16,
    valueOf (0x20 :: getAllowedLogLevels levels) = getAllowedLogLevels levels ∧
      (getAllowedLogLevels levels).length ≤ 4 ∧
      (setAllowedLogLevels 0 0 (getAllowedLogLevels levels)).2 = true ∧
      ((getAllowedLogLevels levels).foldl (fun given id => given ||| levelOf id) 0).toNat =
        levels := by
  decide +kernel

theorem accepts_levels {entry : ConfigEntry} (levels : entry.setter = .allowedLogLevels)
    {given : Nat} (small : given < 16) :
    Accepts (entry, 0x20 :: getAllowedLogLevels given) := by
  obtain ⟨clean, short, taken, -⟩ := levels_read given small
  rw [Accepts, clean, levels]
  exact ⟨Nat.le_trans short (by decide), taken⟩

theorem accepts_bool {entry : ConfigEntry} (bool : entry.setter = .bool) (tls : Bool) :
    Accepts (entry, 0x20 :: text (if tls then "true" else "false")) := by
  have taken : ∀ tls : Bool,
      (valueOf (0x20 :: text (if tls then "true" else "false"))).length ≤ 48 ∧
      (Setter.run (fun _ => 0) 0 (valueOf (0x20 :: text (if tls then "true" else "false")))
        .bool).2 = true := by
    decide +kernel
  rw [Accepts, bool]
  exact taken tls

/-- Which printed lines are accepted. -/
theorem accepts_printed (within : WithinLimits conf) :
    (∀ setting ∈ printedSettings conf, Accepts setting) ↔ Readable conf := by
  simp only [printedSettings, entries, printedValues, List.map_cons, List.map_nil,
    List.zip_cons_cons, List.zip_nil_left, List.forall_mem_cons]
  constructor
  · rintro ⟨-, -, -, -, -, -, -, -, name, size, seconds, -⟩
    exact ⟨(accepts_str rfl within.databaseName).mp name,
      (accepts_signed rfl within.expireSize).mp size,
      (accepts_signed rfl within.expireSeconds).mp seconds⟩
  · rintro ⟨name, size, seconds⟩
    have port := within.port
    have maxClients := within.maxClients
    have blocks := within.maxTransactionBlocks
    have lines := within.maxLogLines
    exact ⟨accepts_uint rfl (by omega), accepts_uint rfl (by omega), accepts_uint rfl (by omega),
      accepts_levels rfl within.allowedLogLevels, accepts_numeral rfl (by omega) (by omega),
      (accepts_str rfl within.logFile).mpr within.logFile.1,
      accepts_autosave rfl within.autosaveSeconds within.autosaveCount,
      (accepts_str rfl within.dataFile).mpr within.dataFile.1,
      (accepts_str rfl within.databaseName).mpr name,
      (accepts_signed rfl within.expireSize).mpr size,
      (accepts_signed rfl within.expireSeconds).mpr seconds, accepts_bool rfl conf.tls,
      (accepts_str rfl within.cert).mpr within.cert.1,
      (accepts_str rfl within.privateKey).mpr within.privateKey.1,
      fun setting member => absurd member List.not_mem_nil⟩

/-! ## What comes back -/

/-- Behind the printed lines. -/
def printed (conf : Config) : Parsing :=
  (printedSettings conf).foldl Parsing.after cleared

/-- Before one of the printed lines. -/
def printedBefore (conf : Config) (index : Nat) : Parsing :=
  ((printedSettings conf).take index).foldl Parsing.after cleared

theorem load_printed (accepts : ∀ setting ∈ printedSettings conf, Accepts setting)
    (index : Nat) {setting : ConfigEntry × Bytes}
    (found : (printedSettings conf)[index]? = some setting) {start width : Nat}
    (beside : ∀ entry ∈ entries.drop (index + 1), entry.Beside start width) :
    load (printed conf).memory start width =
      load ((printedBefore conf index).after setting).memory start width :=
  load_settings_at accepts index found beside cleared

theorem load_uint {setting : ConfigEntry × Bytes} (uint : setting.1.setter = .uint) {number : Nat}
    (value : valueOf setting.2 = decimal number) (small : number < 2 ^ 64) {skip width : Nat}
    (inside : skip + width ≤ 8) (parsing : Parsing) :
    load (parsing.after setting).memory (setting.1.field.offset + skip) width =
      littleEndian width (number / 256 ^ skip) := by
  have stores : storesOf setting parsing.memory =
      [⟨setting.1.field.offset, littleEndian 8 number⟩] := by
    simp only [storesOf, value, uint, Setter.run, setUint, if_neg (decimal_head number),
      strtoull_decimal small]
  simp only [Parsing.after, stores, storeAll, List.foldl_cons, List.foldl_nil]
  exact load_word _ _ _ inside

theorem number_uint (accepts : ∀ setting ∈ printedSettings conf, Accepts setting)
    (index : Nat) (entry : ConfigEntry) {number : Nat}
    (found : (printedSettings conf)[index]? = some (entry, 0x20 :: decimal number))
    (uint : entry.setter = .uint) (small : number < 256 ^ entry.field.size)
    (size : entry.field.size ≤ 8)
    (beside : ∀ other ∈ entries.drop (index + 1),
      other.Beside entry.field.offset entry.field.size) :
    entry.field.number (printed conf).memory = number := by
  have fits : number < 2 ^ 64 :=
    Nat.lt_of_lt_of_le small ((Nat.pow_le_pow_right (by decide) size).trans (by decide))
  have value : valueOf (entry, 0x20 :: decimal number).2 = decimal number := valueOf_decimal number
  rw [Field.number, load_printed accepts index found beside]
  have read := load_uint uint value fits (by omega : 0 + entry.field.size ≤ 8)
    (printedBefore conf index)
  rw [Nat.add_zero, Nat.pow_zero, Nat.div_one] at read
  rw [read, ofLittleEndian_littleEndian small]

theorem signed_wrap {number : Int} (least : -2 ^ 31 ≤ number) (most : number < 2 ^ 31) :
    signed ((number % 2 ^ 64).toNat % 256 ^ 4) = number := by
  rw [signed]
  split
  · omega
  · omega

theorem number_int (accepts : ∀ setting ∈ printedSettings conf, Accepts setting)
    (within : WithinLimits conf) :
    signed (Field.maxLogLines.number (printed conf).memory) = conf.maxLogLines := by
  have lines := within.maxLogLines
  have value : valueOf (0x20 :: numeral conf.maxLogLines) = numeral conf.maxLogLines :=
    valueOf_numeral _
  have set := @load_int (⟨"max_log_lines", .maxLogLines, .int⟩, 0x20 :: numeral conf.maxLogLines)
    rfl 4 (by decide) (printedBefore conf 4)
  rw [value, strtoll_numeral (by omega : -2 ^ 63 ≤ conf.maxLogLines) (by omega)] at set
  rw [Field.number, load_printed accepts 4 rfl (by decide)]
  refine (congrArg (fun bytes => signed (ofLittleEndian bytes)) set).trans ?_
  dsimp only
  rw [ofLittleEndian_littleEndian_mod]
  exact signed_wrap (by omega) (by omega)

theorem string_str (accepts : ∀ setting ∈ printedSettings conf, Accepts setting)
    (index : Nat) (entry : ConfigEntry) {words : Bytes}
    (found : (printedSettings conf)[index]? = some (entry, 0x20 :: words))
    (str : entry.setter = .str) {limit : Nat} (word : Word limit words)
    (room : words.length < entry.field.size)
    (beside : ∀ other ∈ entries.drop (index + 1),
      other.Beside entry.field.offset entry.field.size) :
    entry.field.string (printed conf).memory = words := by
  have clean : 0 ∉ words := fun member => (word.2 0 member).2.2 rfl
  obtain ⟨more, split⟩ := Nat.exists_eq_add_of_le (Nat.succ_le_of_lt room)
  rw [Field.string, load_printed accepts index found beside, split]
  simp only [Parsing.after, storesOf, word_value word, str, Setter.run, setStr, storeAll,
    List.foldl_cons, List.foldl_nil]
  have whole : (words ++ [0]).length = words.length + 1 := List.length_append
  have read := @load_store_inside _ (printedBefore conf index).memory entry.field.offset
    (words ++ [0]) 0 (words.length + 1) (by rw [whole, Nat.zero_add])
  rw [Nat.add_zero, List.drop_zero, List.take_of_length_le (Nat.le_of_eq whole)] at read
  rw [load_add, read, List.append_assoc, cString_append clean]
  exact List.append_nil words

theorem storeAll_levels {memory : Nat → UInt8} {value : Nat} {buf : Bytes}
    (accepted : (setAllowedLogLevels value (memory value) buf).2 = true) :
    storeAll memory (setAllowedLogLevels value (memory value) buf).1 value =
      buf.foldl (fun given id => given ||| levelOf id) (memory value) := by
  induction buf generalizing memory with
  | nil => rfl
  | cons id rest inductionHypothesis =>
      rw [setAllowedLogLevels] at accepted ⊢
      rw [List.foldl_cons, levelOf]
      cases known : logLevelsMap.find? fun level => level.1 == id with
      | none =>
          rw [known] at accepted
          cases accepted
      | some level =>
          rw [known] at accepted
          have stored : store memory value [memory value ||| level.2] value =
              memory value ||| level.2 := @store_inside _ memory value _ 0 _ rfl
          have later := @inductionHypothesis (store memory value [memory value ||| level.2])
          rw [stored] at later
          exact later accepted

theorem number_levels (accepts : ∀ setting ∈ printedSettings conf, Accepts setting)
    (within : WithinLimits conf) :
    Field.allowedLogLevels.number (printed conf).memory = conf.allowedLogLevels := by
  obtain ⟨clean, -, taken, read⟩ := levels_read conf.allowedLogLevels within.allowedLogLevels
  have blocks := within.maxTransactionBlocks
  -- The store of the line before has cleared the levels.
  have zero : (printedBefore conf 3).memory 8 = 0 := by
    have before := @load_settings_at ((printedSettings conf).take 3)
      (fun setting member => accepts setting (List.mem_of_mem_take member)) 2 _ rfl 8 1
      (fun entry member => absurd member List.not_mem_nil) cleared
    have wide := @load_uint (⟨"max_transaction_blocks", .maxTransactionBlocks, .uint⟩,
      0x20 :: decimal conf.maxTransactionBlocks) rfl conf.maxTransactionBlocks (valueOf_decimal _)
      (by omega) 4 1 (by decide) (printedBefore conf 2)
    have byte : load (printedBefore conf 3).memory 8 1 =
        littleEndian 1 (conf.maxTransactionBlocks / 256 ^ 4) := before.trans wide
    rw [Nat.div_eq_of_lt (Nat.lt_of_lt_of_le blocks (by decide)), load_one] at byte
    exact (List.cons.inj byte).1
  rw [setAllowedLogLevels_accepted 0 8 0 ((printedBefore conf 3).memory 8)] at taken
  have stored := storeAll_levels taken
  rw [zero] at stored
  rw [Field.number, load_printed accepts 3 rfl (by decide)]
  simp only [Field.allowedLogLevels, load_one, Parsing.after, storesOf, clean, Setter.run, zero,
    stored]
  rw [ofLittleEndian_cons, read]
  rfl

/-- The seconds that `set_autosave` makes of all digits. -/
def mergedSeconds (seconds count : Nat) : Nat :=
  min (2 ^ 63 - 1) (literalValue (decimal seconds ++ decimal count)) % 2 ^ 32

theorem number_autosave (accepts : ∀ setting ∈ printedSettings conf, Accepts setting) :
    Field.autosaveSeconds.number (printed conf).memory =
        mergedSeconds conf.autosaveSeconds conf.autosaveCount ∧
      Field.autosaveCount.number (printed conf).memory = 0 := by
  have stores : storesOf (⟨"save", .autosave, .autosave⟩,
      0x20 :: (decimal conf.autosaveSeconds ++ 0x20 :: decimal conf.autosaveCount))
        (printedBefore conf 6).memory =
      [⟨180, littleEndian 4 (mergedSeconds conf.autosaveSeconds conf.autosaveCount)⟩,
        ⟨184, littleEndian 4 0⟩] := by
    simp only [storesOf, autosave_value, Setter.run, setAutosave,
      strtoll_literal (isLiteral_append conf.autosaveSeconds conf.autosaveCount), strtoll_nil,
      Field.autosave, mergedSeconds]
    congr 3
    omega
  have small : mergedSeconds conf.autosaveSeconds conf.autosaveCount < 256 ^ 4 :=
    Nat.mod_lt _ (by decide)
  constructor
  · rw [Field.number, load_printed accepts 6 rfl (by decide)]
    simp only [Parsing.after, stores, storeAll, List.foldl_cons, List.foldl_nil]
    rw [load_store_beside (Or.inl (by decide))]
    exact (congrArg ofLittleEndian (load_low _ 180 _ (Nat.le_refl 4))).trans
      (ofLittleEndian_littleEndian small)
  · rw [Field.number, load_printed accepts 6 rfl (by decide)]
    simp only [Parsing.after, stores, storeAll, List.foldl_cons, List.foldl_nil]
    exact congrArg ofLittleEndian (load_low _ 184 0 (Nat.le_refl 4))

/-- The line of the interval clears the batch size behind it. -/
theorem number_size (accepts : ∀ setting ∈ printedSettings conf, Accepts setting)
    (small : conf.expireSeconds < 2 ^ 31) :
    Field.expireSize.number (printed conf).memory = 0 := by
  have value : valueOf (0x20 :: printSigned conf.expireSeconds) = decimal conf.expireSeconds := by
    rw [printSigned_small small]
    exact valueOf_decimal _
  have wide := @load_uint (⟨"expire_check_interval_secs", .expireSeconds, .uint⟩,
    0x20 :: printSigned conf.expireSeconds) rfl conf.expireSeconds value (by omega) 4 4 (by decide)
    (printedBefore conf 10)
  rw [Nat.div_eq_of_lt (Nat.lt_of_lt_of_le small (by decide))] at wide
  rw [Field.number, load_printed accepts 10 rfl (by decide)]
  exact congrArg ofLittleEndian wide

theorem number_tls (accepts : ∀ setting ∈ printedSettings conf, Accepts setting) :
    (Field.tls.number (printed conf).memory != 0) = conf.tls := by
  have stores (tls : Bool) : storesOf (⟨"tls", .tls, .bool⟩,
      0x20 :: text (if tls then "true" else "false")) (printedBefore conf 11).memory =
        [⟨196, [if tls then 1 else 0]⟩] := by
    cases tls with
    | true => rfl
    | false => rfl
  rw [Field.number, load_printed accepts 11 rfl (by decide)]
  simp only [Parsing.after, stores, storeAll, List.foldl_cons, List.foldl_nil]
  have read := @store_inside _ (printedBefore conf 11).memory 196
    [if conf.tls then (1 : UInt8) else 0] 0 _ rfl
  have byte : load (store (printedBefore conf 11).memory 196 [if conf.tls then 1 else 0])
      Field.tls.offset Field.tls.size = [if conf.tls then 1 else 0] := congrArg (fun c => [c]) read
  rw [byte]
  cases conf.tls with
  | true => rfl
  | false => rfl

/-- The struct that the printed lines give: the two numbers of the autosave are merged, and the
batch size is lost. -/
def reread (conf : Config) : Config :=
  { conf with
    autosaveSeconds := mergedSeconds conf.autosaveSeconds conf.autosaveCount
    autosaveCount := 0
    expireSize := 0 }

theorem readConfig_printed (within : WithinLimits conf) (readable : Readable conf) :
    readConfig (printed conf).memory = reread conf := by
  have accepts := (accepts_printed within).mpr readable
  obtain ⟨name, size, seconds⟩ := readable
  have autosave := number_autosave accepts
  have interval : (printedSettings conf)[10]? =
      some (⟨"expire_check_interval_secs", .expireSeconds, .uint⟩,
        0x20 :: decimal conf.expireSeconds) := by
    rw [← printSigned_small seconds]
    rfl
  rw [readConfig, reread, Config.mk.injEq]
  exact ⟨number_uint accepts 0 ⟨"port", .port, .uint⟩ rfl rfl within.port (by decide) (by decide),
    number_uint accepts 1 ⟨"max_clients", .maxClients, .uint⟩ rfl rfl within.maxClients (by decide)
      (by decide),
    number_uint accepts 2 ⟨"max_transaction_blocks", .maxTransactionBlocks, .uint⟩ rfl rfl
      within.maxTransactionBlocks (by decide) (by decide),
    number_levels accepts within,
    number_int accepts within,
    string_str accepts 5 ⟨"log_file", .logFile, .str⟩ rfl rfl within.logFile
      (Nat.lt_succ_of_le within.logFile.1) (by decide),
    string_str accepts 7 ⟨"data_file", .dataFile, .str⟩ rfl rfl within.dataFile
      (Nat.lt_succ_of_le within.dataFile.1) (by decide),
    string_str accepts 8 ⟨"database_name", .databaseName, .str⟩ rfl rfl within.databaseName
      (Nat.lt_succ_of_le within.databaseName.1) (by decide),
    autosave.1, autosave.2,
    number_uint accepts 10 ⟨"expire_check_interval_secs", .expireSeconds, .uint⟩ interval rfl
      within.expireSeconds (by decide) (by decide),
    number_size accepts seconds,
    number_tls accepts,
    string_str accepts 12 ⟨"cert", .cert, .str⟩ rfl rfl within.cert
      (Nat.lt_succ_of_le within.cert.1) (by decide),
    string_str accepts 13 ⟨"private_key", .privateKey, .str⟩ rfl rfl within.privateKey
      (Nat.lt_succ_of_le within.privateKey.1) (by decide)⟩

/-! ## The round trip -/

theorem newline_decimal (number : Nat) : 0x0a ∉ decimal number := fun member =>
  (digit_clean (decimal_digits number _ member)).2.2.1 rfl

theorem newline_numeral (number : Int) : 0x0a ∉ numeral number := by
  rw [numeral]
  split
  · rw [List.mem_cons, not_or]
    exact ⟨by decide, newline_decimal _⟩
  · exact newline_decimal _

theorem newline_word {limit : Nat} {words : Bytes} (word : Word limit words) : 0x0a ∉ words :=
  fun member => (word.2 _ member).2.1 rfl

/-- The newline is looked for in the characters, not in the encoding of the literal. -/
theorem newline_text (characters : List Char)
    (clean : 0x0a ∉ characters.map fun character => UInt8.ofNat character.toNat) :
    0x0a ∉ text (String.ofList characters) := by
  rwa [text, String.toList_ofList]

theorem newline_values (within : WithinLimits conf) :
    ∀ value ∈ printedValues conf, 0x0a ∉ value := by
  have levels : ∀ levels < 16, 0x0a ∉ getAllowedLogLevels levels := by decide +kernel
  have tls : ∀ tls : Bool, 0x0a ∉ text (if tls then "true" else "false") := by decide
  have autosave : 0x0a ∉ decimal conf.autosaveSeconds ++ 0x20 :: decimal conf.autosaveCount := by
    rw [List.mem_append, List.mem_cons]
    rintro (member | same | member)
    · exact newline_decimal _ member
    · exact absurd same (by decide)
    · exact newline_decimal _ member
  simp only [printedValues, List.forall_mem_cons]
  exact ⟨newline_decimal _, newline_decimal _, newline_decimal _,
    levels _ within.allowedLogLevels, newline_numeral _, newline_word within.logFile, autosave,
    newline_word within.dataFile, newline_word within.databaseName, newline_numeral _,
    newline_numeral _, tls conf.tls, newline_word within.cert, newline_word within.privateKey,
    fun value member => absurd member List.not_mem_nil⟩

theorem wellFormed_configLines (within : WithinLimits conf) :
    ∀ line ∈ configLines conf, line.WellFormed := by
  apply wellFormed_of
  · repeat refine List.forall_mem_cons.mpr ⟨newline_text _ (by decide), ?_⟩
    exact fun words member => absurd member List.not_mem_nil
  · have same : settingsOf (configLines conf) = printedSettings conf := rfl
    rw [same]
    intro setting member
    obtain ⟨known, printed⟩ := List.of_mem_zip member
    obtain ⟨value, isValue, spaced⟩ := List.mem_map.mp printed
    rw [← spaced, List.mem_cons, not_or]
    exact ⟨known, by decide, newline_values within value isValue⟩

theorem literalValue_zero (seconds : Nat) :
    literalValue (decimal seconds ++ decimal 0) = seconds * 10 := by
  rw [decimal_small (show 0 < 10 by decide), literalValue_more, literalValue_decimal]
  rfl

theorem mergedSeconds_zero {seconds : Nat} (small : seconds < 2 ^ 32)
    (same : mergedSeconds seconds 0 = seconds) : seconds = 0 := by
  have least : seconds * 10 ≤ 2 ^ 63 - 1 := by omega
  rw [mergedSeconds, literalValue_zero, Nat.min_eq_right least] at same
  -- Nine times the seconds are a multiple of `2 ^ 32`.
  have split := Nat.div_add_mod (seconds * 10) (2 ^ 32)
  rw [same, Nat.mul_succ seconds 9, Nat.add_right_cancel_iff] at split
  have coprime : Nat.Coprime (2 ^ 32) 9 := by decide
  exact Nat.eq_zero_of_dvd_of_lt (coprime.dvd_of_dvd_mul_right ⟨_, split.symm⟩) small

/-- The struct comes back only from these. -/
structure Returnable (conf : Config) : Prop where
  autosaveSeconds : conf.autosaveSeconds = 0
  autosaveCount : conf.autosaveCount = 0
  expireSize : conf.expireSize = 0
  expireSeconds : conf.expireSeconds < 2 ^ 31
  databaseName : conf.databaseName.length ≤ 48

theorem reread_eq_iff (within : WithinLimits conf) (readable : Readable conf) :
    reread conf = conf ↔ Returnable conf := by
  constructor
  · intro same
    have count : 0 = conf.autosaveCount := congrArg Config.autosaveCount same
    have size : 0 = conf.expireSize := congrArg Config.expireSize same
    have seconds : mergedSeconds conf.autosaveSeconds conf.autosaveCount = conf.autosaveSeconds :=
      congrArg Config.autosaveSeconds same
    rw [← count] at seconds
    exact ⟨mergedSeconds_zero within.autosaveSeconds seconds, count.symm, size.symm,
      readable.2.2, readable.1⟩
  · rintro ⟨seconds, count, size, -, -⟩
    have merged : mergedSeconds 0 0 = 0 := by decide
    cases conf
    simp only [reread] at *
    rw [seconds, count, size, merged]

/-- A store that stays in the field that is set. -/
def Inside (write : Field × Store) : Prop :=
  write.1.offset ≤ write.2.address ∧
    write.2.address + write.2.bytes.length ≤ write.1.offset + write.1.size

/-- The struct comes back. -/
def Returns (conf : Config) : Prop :=
  ∃ writes, parseConfig (getConfigString conf) = .ok (conf, writes)

/-- The struct comes back, and every store stays in the field that is set. -/
def RoundTrips (conf : Config) : Prop :=
  ∃ writes, parseConfig (getConfigString conf) = .ok (conf, writes) ∧ ∀ write ∈ writes, Inside write

theorem parseConfig_printed (within : WithinLimits conf) (readable : Readable conf) :
    parseConfig (getConfigString conf) = .ok (reread conf, (printed conf).writes) := by
  have accepts := (accepts_printed within).mpr readable
  have lines : LinesAllowed (reread conf).maxLogLines := within.maxLogLines.symm.imp And.left id
  rw [getConfigString, parseConfig_lines (wellFormed_configLines within),
    effective_configLines, setLines_of_accepts accepts, ← printed]
  simp only [Except.bind]
  rw [checkLimits_readConfig, readConfig_printed within readable, if_pos lines]
  rfl

theorem readable_of_parseConfig (within : WithinLimits conf)
    {result : Config × List (Field × Store)}
    (parsed : parseConfig (getConfigString conf) = .ok result) : Readable conf := by
  rw [getConfigString, parseConfig_lines (wellFormed_configLines within),
    effective_configLines] at parsed
  cases ran : setLines (printedSettings conf) cleared with
  | error failure =>
      rw [ran] at parsed
      cases parsed
  | ok parsing => exact (accepts_printed within).mp (accepts_of_setLines ran)

theorem writes_after (settings : List (ConfigEntry × Bytes)) (parsing : Parsing) :
    parsing.writes ⊆ (settings.foldl Parsing.after parsing).writes := by
  induction settings generalizing parsing with
  | nil => exact List.Subset.refl _
  | cons setting rest inductionHypothesis =>
      intro write member
      exact inductionHypothesis (parsing.after setting) (List.mem_append_left _ member)

/-- The first line stores 64 bits for the port, which has 16. -/
theorem port_written (within : WithinLimits conf) :
    (Field.port, ⟨0, littleEndian 8 conf.port⟩) ∈ (printed conf).writes := by
  have port := within.port
  have stores : storesOf (⟨"port", .port, .uint⟩, 0x20 :: decimal conf.port) cleared.memory =
      [⟨0, littleEndian 8 conf.port⟩] := by
    simp only [storesOf, valueOf_space, valueOf_decimal, Setter.run, setUint,
      if_neg (decimal_head conf.port), strtoull_decimal (by omega : conf.port < 2 ^ 64), Field.port]
  have first : (Field.port, ⟨0, littleEndian 8 conf.port⟩) ∈
      (cleared.after (⟨"port", .port, .uint⟩, 0x20 :: decimal conf.port)).writes := by
    rw [Parsing.after, stores]
    exact List.mem_cons_self ..
  rw [printed, printedSettings, entries, printedValues, List.map_cons, List.zip_cons_cons,
    List.foldl_cons]
  exact writes_after _ _ first

/-- Exactly these structs come back from their text, and no struct does while every store stays
in its field. -/
theorem config_round_trip (within : WithinLimits conf) :
    (Returns conf ↔ Returnable conf) ∧ ¬RoundTrips conf := by
  constructor
  · constructor
    · rintro ⟨writes, parsed⟩
      have readable := readable_of_parseConfig within parsed
      rw [parseConfig_printed within readable, Except.ok.injEq, Prod.mk.injEq] at parsed
      exact (reread_eq_iff within readable).mp parsed.1
    · intro returnable
      have readable : Readable conf :=
        ⟨returnable.databaseName, returnable.expireSize ▸ by decide, returnable.expireSeconds⟩
      refine ⟨(printed conf).writes, ?_⟩
      rw [parseConfig_printed within readable, (reread_eq_iff within readable).mpr returnable]
  · rintro ⟨writes, parsed, inside⟩
    have readable := readable_of_parseConfig within parsed
    rw [parseConfig_printed within readable, Except.ok.injEq, Prod.mk.injEq] at parsed
    have beyond : 0 + (littleEndian 8 conf.port).length ≤ 0 + 2 :=
      (inside _ (parsed.2 ▸ port_written within)).2
    rw [length_littleEndian] at beyond
    exact absurd beyond (by decide)

/-- Words that can be looked through. -/
theorem word_of {limit : Nat} {words : Bytes}
    (clean : words.length ≤ limit ∧ words.all fun c => c != 0x20 && c != 0x0a && c != 0) :
    Word limit words := by
  refine ⟨clean.1, fun c member => ?_⟩
  have one := List.all_eq_true.mp clean.2 c member
  simp only [Bool.and_eq_true, bne_iff_ne, and_assoc] at one
  exact one

theorem within_defaultConf : WithinLimits defaultConf where
  port := by decide
  maxClients := by decide
  maxTransactionBlocks := by decide
  allowedLogLevels := by decide
  maxLogLines := by decide
  logFile := word_of (by decide)
  dataFile := word_of (by decide)
  databaseName := word_of (by decide)
  autosaveSeconds := by decide
  autosaveCount := by decide
  expireSeconds := by decide
  expireSize := by decide
  cert := word_of (by decide)
  privateKey := word_of (by decide)

/-- The default configuration without autosave and without keys to check. -/
def bareConf : Config :=
  { defaultConf with
    autosaveSeconds := 0
    autosaveCount := 0
    expireSize := 0 }

theorem config_round_trip_bare : Returns bareConf ∧ ¬RoundTrips bareConf := by
  have within : WithinLimits bareConf :=
    { within_defaultConf with
      autosaveSeconds := by decide
      autosaveCount := by decide
      expireSize := by decide }
  obtain ⟨returns, never⟩ := config_round_trip within
  exact ⟨returns.mpr ⟨rfl, rfl, rfl, by decide, by decide⟩, never⟩

/-- The default configuration saves after 60100000 seconds when it is read again, and never
checks a key for its expiry. -/
theorem config_not_returned : WithinLimits defaultConf ∧ ¬RoundTrips defaultConf ∧
    ∃ writes, parseConfig (getConfigString defaultConf) = .ok ({ defaultConf with
      autosaveSeconds := 60100000
      autosaveCount := 0
      expireSize := 0 }, writes) := by
  have readable : Readable defaultConf := ⟨by decide, by decide, by decide⟩
  have parsed := parseConfig_printed within_defaultConf readable
  have merged : mergedSeconds 60 100000 = 60100000 := by decide
  refine ⟨within_defaultConf, ?_, (printed defaultConf).writes, ?_⟩
  · rintro ⟨writes, same, -⟩
    rw [parsed, Except.ok.injEq, Prod.mk.injEq] at same
    have count : 0 = defaultConf.autosaveCount := congrArg Config.autosaveCount same.1
    exact absurd count (by decide)
  · rw [parsed, ← merged]
    rfl

end TellyDB.Utils.Configuration
