import TellyDB.Utils.Config

/-!
Owns the configuration line by line: a key with a value calls its setter, a comment is passed, and
a blank line is passed together with the line behind it.
-/

namespace TellyDB.Utils.Configuration

open Lib.ByteMemory Lib.Positional Resp

/-! ## Passing a line -/

theorem passLine_append {words rest : Bytes} (inside : 0x0a ∉ words) :
    passLine (words ++ 0x0a :: rest) = rest := by
  induction words with
  | nil => exact if_pos rfl
  | cons c words inductionHypothesis =>
      rw [List.mem_cons, not_or] at inside
      rw [List.cons_append, passLine, if_neg (Ne.symm inside.1)]
      exact inductionHypothesis inside.2

/-- What `read_value` keeps of a value. -/
def valueOf (value : Bytes) : Bytes := value.filter fun c => c != 0x20 && c != 0

theorem readValue_append {value buf rest : Bytes} (inside : 0x0a ∉ value) :
    readValue (value ++ 0x0a :: rest) buf =
      if (buf ++ valueOf value).length ≤ 48 ∨ valueOf value = [] then
        .ok (buf ++ valueOf value, rest)
      else .error .outside := by
  induction value generalizing buf with
  | nil =>
      rw [valueOf, List.filter_nil, if_pos (Or.inr rfl), List.append_nil]
      exact if_pos rfl
  | cons c value inductionHypothesis =>
      rw [List.mem_cons, not_or] at inside
      rw [List.cons_append, readValue, if_neg (Ne.symm inside.1)]
      by_cases space : c = 0x20
      · have same : valueOf (c :: value) = valueOf value := by
          rw [space]
          rfl
        rw [if_neg (not_not.mpr space), same]
        exact inductionHypothesis inside.2
      rw [if_pos space, strncat]
      by_cases zero : c = 0
      · have same : valueOf (c :: value) = valueOf value := by
          rw [zero]
          rfl
        rw [if_pos zero, same]
        exact inductionHypothesis inside.2
      have kept : valueOf (c :: value) = c :: valueOf value := by
        rw [valueOf, List.filter_cons, if_pos (by simp [space, zero])]
        rfl
      rw [if_neg zero, kept]
      split
      · next room =>
          show readValue (value ++ 0x0a :: rest) (buf ++ [c]) = _
          rw [inductionHypothesis inside.2, List.append_assoc, List.singleton_append]
          by_cases nothing : valueOf value = []
          · rw [nothing, if_pos (Or.inr rfl), if_pos]
            rw [List.length_append, List.length_singleton]
            exact Or.inl room
          · simp only [nothing, or_false, reduceCtorEq]
      · next full =>
          rw [if_neg]
          · rfl
          · rw [List.length_append, List.length_cons]
            rintro (short | empty)
            · omega
            · cases empty

/-! ## A line -/

/-- The bytes that the loop collects into `buf`. -/
def Plain (key : Bytes) : Prop :=
  ∀ c ∈ key, c ≠ 0x23 ∧ c ≠ 0x0a ∧ c ≠ 0x3d ∧ c ≠ 0x20 ∧ c ≠ 0

instance (key : Bytes) : Decidable (Plain key) :=
  inferInstanceAs (Decidable (∀ c ∈ key, c ≠ 0x23 ∧ c ≠ 0x0a ∧ c ≠ 0x3d ∧ c ≠ 0x20 ∧ c ≠ 0))

theorem parseLoop_key {key rest : Bytes} {parsing : Parsing} (plain : Plain key)
    (room : parsing.buf.length + key.length ≤ 48) :
    parseLoop (key ++ rest) parsing =
      parseLoop rest { parsing with buf := parsing.buf ++ key } := by
  induction key generalizing parsing with
  | nil => rw [List.append_nil, List.nil_append]
  | cons c key inductionHypothesis =>
      obtain ⟨hash, newline, equals, space, zero⟩ := plain c (List.mem_cons_self ..)
      rw [List.length_cons] at room
      rw [List.cons_append, parseLoop, if_neg (not_or.mpr ⟨hash, newline⟩), if_neg equals,
        if_neg space, strncat, if_neg zero, if_pos (by omega)]
      show parseLoop (key ++ rest) { parsing with buf := parsing.buf ++ [c] } = _
      rw [inductionHypothesis (fun other member => plain other (List.mem_cons_of_mem _ member))
        (by rw [List.length_append, List.length_singleton]; omega), List.append_assoc]
      rfl

theorem parseLoop_spaces (count : Nat) (rest : Bytes) (parsing : Parsing) :
    parseLoop (List.replicate count 0x20 ++ rest) parsing = parseLoop rest parsing := by
  induction count with
  | zero => rfl
  | succ count inductionHypothesis =>
      rw [List.replicate_succ, List.cons_append, parseLoop, if_neg (by decide),
        if_neg (by decide), if_pos rfl]
      exact inductionHypothesis

theorem parseLoop_comment {words rest : Bytes} (inside : 0x0a ∉ words) (parsing : Parsing) :
    parseLoop (0x23 :: words ++ 0x0a :: rest) parsing = parseLoop rest parsing := by
  rw [List.cons_append, parseLoop, if_pos (Or.inl rfl), passLine_append inside]

/-- Every key leads to its entry. -/
theorem entries_known {entry : ConfigEntry} (known : entry ∈ entries) :
    Plain (text entry.key) ∧ (text entry.key).length ≤ 48 ∧
      (entries.find? fun other => text entry.key = text other.key) = some entry := by
  revert entry
  decide +kernel

/-- A line with a key calls its setter with the value, as far as the value has room. -/
def ConfigEntry.line (entry : ConfigEntry) (value : Bytes) (parsing : Parsing) :
    Except Failure Parsing :=
  if (valueOf value).length ≤ 48 then entry.set (valueOf value) parsing else .error .outside

theorem parseLoop_setting {entry : ConfigEntry} (known : entry ∈ entries) (spaces : Nat)
    {value rest : Bytes} (inside : 0x0a ∉ value) {parsing : Parsing} (start : parsing.buf = []) :
    parseLoop ((ConfigLine.setting entry spaces value).bytes ++ rest) parsing =
      (entry.line value parsing).bind (parseLoop rest) := by
  obtain ⟨plain, short, found⟩ := entries_known known
  have same : (ConfigLine.setting entry spaces value).bytes ++ rest =
      text entry.key ++ (List.replicate spaces 0x20 ++ 0x3d :: (value ++ 0x0a :: rest)) := by
    simp [ConfigLine.bytes]
  rw [same, parseLoop_key plain (by rw [start, List.length_nil]; omega), parseLoop_spaces,
    parseLoop, if_neg (by decide), if_pos rfl, start, List.nil_append, found]
  have read := @readValue_append value [] rest inside
  rw [List.nil_append] at read
  rw [ConfigEntry.line]
  split at read
  · next room =>
      have short : (valueOf value).length ≤ 48 := by
        rcases room with short | nothing
        · exact short
        · rw [nothing]
          exact Nat.zero_le _
      rw [if_pos short]
      dsimp only
      split
      · next failed => rw [read] at failed; cases failed
      · next came =>
          rw [read] at came
          cases came
          rfl
  · next full =>
      rw [if_neg (not_or.mp full).1]
      dsimp only
      split
      · next failed =>
          rw [read] at failed
          cases failed
          rfl
      · next came => rw [read] at came; cases came

theorem ConfigEntry.line_buf {entry : ConfigEntry} {value : Bytes} {parsing next : Parsing}
    (ran : entry.line value parsing = .ok next) : next.buf = [] := by
  rw [ConfigEntry.line] at ran
  split at ran
  · rw [ConfigEntry.set] at ran
    split at ran
    · cases ran
      rfl
    · cases ran
  · cases ran

/-! ## All lines -/

/-- A line whose bytes are read as what it is. -/
def ConfigLine.WellFormed : ConfigLine → Prop
  | .comment words => 0x0a ∉ words
  | .blank => True
  | .setting entry _ value => entry ∈ entries ∧ 0x0a ∉ value

/-- The words of the comments. -/
def commentsOf (lines : List ConfigLine) : List Bytes := lines.filterMap fun
  | .comment words => some words
  | _ => none

/-- The entries and what stands behind them. -/
def settingsOf (lines : List ConfigLine) : List (ConfigEntry × Bytes) := lines.filterMap fun
  | .setting entry _ value => some (entry, value)
  | _ => none

theorem wellFormed_of {lines : List ConfigLine}
    (comments : ∀ words ∈ commentsOf lines, 0x0a ∉ words)
    (settings : ∀ setting ∈ settingsOf lines, setting.1 ∈ entries ∧ 0x0a ∉ setting.2) :
    ∀ line ∈ lines, line.WellFormed := by
  intro line member
  cases line with
  | comment words => exact comments words (List.mem_filterMap.mpr ⟨_, member, rfl⟩)
  | blank => trivial
  | setting entry spaces value =>
      exact settings (entry, value) (List.mem_filterMap.mpr ⟨_, member, rfl⟩)

/-- The lines whose setters are called, with their values. -/
def effective : List ConfigLine → List (ConfigEntry × Bytes)
  | [] => []
  | .comment _ :: rest => effective rest
  | [.blank] => []
  | .blank :: _ :: rest => effective rest
  | .setting entry _ value :: rest => (entry, value) :: effective rest

/-- The lines one after the other. -/
def setLines : List (ConfigEntry × Bytes) → Parsing → Except Failure Parsing
  | [], parsing => .ok parsing
  | setting :: rest, parsing => (setting.1.line setting.2 parsing).bind (setLines rest)

/-- A line without its newline. -/
theorem ConfigLine.WellFormed.body {line : ConfigLine} (formed : line.WellFormed) :
    ∃ words, 0x0a ∉ words ∧ line.bytes = words ++ [0x0a] := by
  cases line with
  | comment words =>
      refine ⟨0x23 :: words, ?_, rfl⟩
      rw [List.mem_cons, not_or]
      exact ⟨by decide, formed⟩
  | blank => exact ⟨[], List.not_mem_nil, rfl⟩
  | setting entry spaces value =>
      refine ⟨text entry.key ++ (List.replicate spaces 0x20 ++ 0x3d :: value), ?_, by
        simp [ConfigLine.bytes]⟩
      have plain := (entries_known formed.1).1
      simp only [List.mem_append, List.mem_cons, List.mem_replicate, not_or]
      exact ⟨fun member => (plain _ member).2.1 rfl, fun repeated => absurd repeated.2 (by decide),
        by decide, formed.2⟩

theorem parseLoop_lines {lines : List ConfigLine} (formed : ∀ line ∈ lines, line.WellFormed)
    {parsing : Parsing} (start : parsing.buf = []) :
    parseLoop (lines.flatMap ConfigLine.bytes) parsing =
      (setLines (effective lines) parsing).map fun parsed => { parsed with buf := [0xff] } := by
  induction lines using effective.induct generalizing parsing with
  | case1 =>
      rw [List.flatMap_nil, parseLoop, start]
      rfl
  | case2 words rest inductionHypothesis =>
      rw [List.forall_mem_cons] at formed
      rw [List.flatMap_cons, ConfigLine.bytes, List.append_assoc, List.singleton_append,
        parseLoop_comment formed.1]
      exact inductionHypothesis formed.2 start
  | case3 =>
      rw [List.flatMap_singleton, ConfigLine.bytes, parseLoop, if_pos (Or.inr rfl), passLine,
        parseLoop, start]
      rfl
  | case4 line rest inductionHypothesis =>
      rw [List.forall_mem_cons, List.forall_mem_cons] at formed
      obtain ⟨words, inside, same⟩ := formed.2.1.body
      rw [List.flatMap_cons, List.flatMap_cons, ConfigLine.bytes, same, List.singleton_append,
        List.append_assoc, List.singleton_append, parseLoop, if_pos (Or.inr rfl),
        passLine_append inside]
      exact inductionHypothesis formed.2.2 start
  | case5 entry spaces value rest inductionHypothesis =>
      rw [List.forall_mem_cons] at formed
      rw [List.flatMap_cons, parseLoop_setting formed.1.1 spaces formed.1.2 start, effective,
        setLines]
      cases ran : entry.line value parsing with
      | error failure => rfl
      | ok next => exact inductionHypothesis formed.2 (entry.line_buf ran)

/-- The configuration of some lines. -/
theorem parseConfig_lines {lines : List ConfigLine} (formed : ∀ line ∈ lines, line.WellFormed) :
    parseConfig (lines.flatMap ConfigLine.bytes) =
      (setLines (effective lines) cleared).bind fun parsing =>
        (checkLimits (readConfig parsing.memory)).map fun conf => (conf, parsing.writes) := by
  rw [parseConfig, parseLoop_lines formed rfl]
  cases setLines (effective lines) cleared with
  | error failure => rfl
  | ok parsing => rfl

/-- The numbers of lines that `parse_config` lets through. -/
def LinesAllowed (maxLogLines : Int) : Prop := 0 < maxLogLines ∨ maxLogLines = -1

instance (maxLogLines : Int) : Decidable (LinesAllowed maxLogLines) :=
  inferInstanceAs (Decidable (0 < maxLogLines ∨ maxLogLines = -1))

/-- The other limits are those of the fields, which hold of every struct. -/
theorem checkLimits_readConfig (memory : Nat → UInt8) :
    checkLimits (readConfig memory) =
      if LinesAllowed (readConfig memory).maxLogLines then .ok (readConfig memory)
      else .error (violates "max_log_lines" "0 < value <= 2147483647") := by
  have bound (field : Field) : field.number memory < 256 ^ field.size := by
    have less := ofLittleEndian_lt (load memory field.offset field.size)
    rwa [length_load] at less
  have maxClients : (readConfig memory).maxClients < 65536 := bound .maxClients
  have blocks : (readConfig memory).maxTransactionBlocks < 4294967296 :=
    bound .maxTransactionBlocks
  have seconds : (readConfig memory).expireSeconds < 4294967296 := bound .expireSeconds
  have size : (readConfig memory).expireSize < 4294967296 := bound .expireSize
  have lines : (readConfig memory).maxLogLines ≤ 2147483647 := by
    have word : Field.maxLogLines.number memory < 4294967296 := bound .maxLogLines
    simp only [readConfig, signed]
    split
    · omega
    · omega
  rw [checkLimits, if_neg (by omega), if_neg (by omega), if_neg (by omega), if_neg (by omega)]
  by_cases allowed : LinesAllowed (readConfig memory).maxLogLines
  · rw [if_pos allowed, if_neg]
    rw [LinesAllowed] at allowed
    omega
  · rw [if_neg allowed, if_pos]
    rw [LinesAllowed] at allowed
    omega

/-! ## Accepted lines -/

/-- The value has room in `buf`, and the setter takes it. -/
def Accepts (setting : ConfigEntry × Bytes) : Prop :=
  (valueOf setting.2).length ≤ 48 ∧
    (setting.1.setter.run (fun _ => 0) 0 (valueOf setting.2)).2 = true

instance (setting : ConfigEntry × Bytes) : Decidable (Accepts setting) :=
  inferInstanceAs (Decidable ((valueOf setting.2).length ≤ 48 ∧
    (setting.1.setter.run (fun _ => 0) 0 (valueOf setting.2)).2 = true))

theorem setAllowedLogLevels_accepted (one other : Nat) (oneLevels otherLevels : UInt8)
    (buf : Bytes) : (setAllowedLogLevels one oneLevels buf).2 =
      (setAllowedLogLevels other otherLevels buf).2 := by
  induction buf generalizing oneLevels otherLevels with
  | nil => rfl
  | cons id rest inductionHypothesis =>
      rw [setAllowedLogLevels, setAllowedLogLevels]
      cases logLevelsMap.find? fun level => level.1 == id with
      | none => rfl
      | some level => exact inductionHypothesis _ _

/-- What a setter takes does not depend on the struct. -/
theorem run_accepted (setter : Setter) (memory other : Nat → UInt8) (value otherValue : Nat)
    (buf : Bytes) : (setter.run memory value buf).2 = (setter.run other otherValue buf).2 := by
  cases setter with
  | uint =>
      simp only [Setter.run, setUint]
      split
      · rfl
      · rfl
  | int => rfl
  | allowedLogLevels => exact setAllowedLogLevels_accepted _ _ _ _ buf
  | autosave => rfl
  | str => rfl
  | bool =>
      simp only [Setter.run, setBool]
      split
      · rfl
      · split
        · rfl
        · rfl

/-- What the setter of a line stores. -/
def storesOf (setting : ConfigEntry × Bytes) (memory : Nat → UInt8) : List Store :=
  (setting.1.setter.run memory setting.1.field.offset (valueOf setting.2)).1

/-- Behind an accepted line. -/
def Parsing.after (parsing : Parsing) (setting : ConfigEntry × Bytes) : Parsing where
  buf := []
  memory := storeAll parsing.memory (storesOf setting parsing.memory)
  writes := parsing.writes ++
    (storesOf setting parsing.memory).map fun written => (setting.1.field, written)

theorem line_of_accepts {setting : ConfigEntry × Bytes} (accepts : Accepts setting)
    (parsing : Parsing) : setting.1.line setting.2 parsing = .ok (parsing.after setting) := by
  obtain ⟨room, taken⟩ := accepts
  rw [run_accepted _ _ parsing.memory _ setting.1.field.offset] at taken
  rw [ConfigEntry.line, if_pos room, ConfigEntry.set]
  exact if_pos taken

theorem accepts_of_line {setting : ConfigEntry × Bytes} {parsing next : Parsing}
    (ran : setting.1.line setting.2 parsing = .ok next) : Accepts setting := by
  rw [ConfigEntry.line] at ran
  split at ran
  · next room =>
      refine ⟨room, ?_⟩
      rw [run_accepted _ _ parsing.memory _ setting.1.field.offset]
      rw [ConfigEntry.set] at ran
      split at ran
      · next taken => exact taken
      · cases ran
  · cases ran

/-- Accepted lines are set one after the other. -/
theorem setLines_of_accepts {settings : List (ConfigEntry × Bytes)}
    (accepts : ∀ setting ∈ settings, Accepts setting) (parsing : Parsing) :
    setLines settings parsing = .ok (settings.foldl Parsing.after parsing) := by
  induction settings generalizing parsing with
  | nil => rfl
  | cons setting rest inductionHypothesis =>
      rw [List.forall_mem_cons] at accepts
      rw [setLines, line_of_accepts accepts.1]
      exact inductionHypothesis accepts.2 _

theorem accepts_of_setLines {settings : List (ConfigEntry × Bytes)} {parsing next : Parsing}
    (ran : setLines settings parsing = .ok next) : ∀ setting ∈ settings, Accepts setting := by
  induction settings generalizing parsing with
  | nil => exact fun setting member => absurd member List.not_mem_nil
  | cons setting rest inductionHypothesis =>
      rw [setLines] at ran
      cases went : setting.1.line setting.2 parsing with
      | error failure =>
          rw [went] at ran
          cases ran
      | ok after =>
          rw [went] at ran
          exact List.forall_mem_cons.mpr ⟨accepts_of_line went, inductionHypothesis ran⟩

/-! ## Where setters store -/

/-- How many bytes from its field on a setter may store. -/
def Setter.width : Setter → Nat
  | .uint => 8
  | .int => 8
  | .allowedLogLevels => 1
  | .autosave => 8
  | .str => 49
  | .bool => 1

theorem setAllowedLogLevels_within {value : Nat} {logLevels : UInt8} {buf : Bytes} :
    ∀ written ∈ (setAllowedLogLevels value logLevels buf).1,
      written.address = value ∧ written.bytes.length = 1 := by
  induction buf generalizing logLevels with
  | nil => exact fun written member => absurd member List.not_mem_nil
  | cons id rest inductionHypothesis =>
      rw [setAllowedLogLevels]
      cases logLevelsMap.find? fun level => level.1 == id with
      | none => exact fun written member => absurd member List.not_mem_nil
      | some level => exact List.forall_mem_cons.mpr ⟨⟨rfl, rfl⟩, inductionHypothesis⟩

theorem run_within {setter : Setter} {memory : Nat → UInt8} {value : Nat} {buf : Bytes}
    (short : buf.length ≤ 48) : ∀ written ∈ (setter.run memory value buf).1,
      value ≤ written.address ∧
        written.address + written.bytes.length ≤ value + setter.width := by
  have none : ∀ written ∈ ([] : List Store), value ≤ written.address ∧
      written.address + written.bytes.length ≤ value + setter.width :=
    fun written member => absurd member List.not_mem_nil
  cases setter with
  | uint =>
      simp only [Setter.run, setUint]
      split
      · exact none
      · simp [Setter.width, length_littleEndian]
  | int => simp [Setter.run, setInt, Setter.width, length_littleEndian]
  | allowedLogLevels =>
      intro written member
      obtain ⟨address, length⟩ := setAllowedLogLevels_within written member
      simp only [Setter.width]
      omega
  | autosave =>
      simp [Setter.run, setAutosave, Setter.width, length_littleEndian]
  | str =>
      simp only [Setter.run, setStr, Setter.width, List.mem_singleton, forall_eq,
        List.length_append, List.length_singleton]
      omega
  | bool =>
      simp only [Setter.run, setBool]
      split
      · simp [Setter.width]
      · split
        · simp [Setter.width]
        · exact none

/-- The setter of an entry stores beside these bytes. -/
def ConfigEntry.Beside (start width : Nat) (entry : ConfigEntry) : Prop :=
  start + width ≤ entry.field.offset ∨ entry.field.offset + entry.setter.width ≤ start

instance (start width : Nat) (entry : ConfigEntry) : Decidable (entry.Beside start width) :=
  inferInstanceAs (Decidable (start + width ≤ entry.field.offset ∨
    entry.field.offset + entry.setter.width ≤ start))

theorem load_storeAll_beside {memory : Nat → UInt8} {stores : List Store} {start width : Nat}
    (beside : ∀ written ∈ stores, start + width ≤ written.address ∨
      written.address + written.bytes.length ≤ start) :
    load (storeAll memory stores) start width = load memory start width := by
  induction stores generalizing memory with
  | nil => rfl
  | cons written rest inductionHypothesis =>
      rw [List.forall_mem_cons] at beside
      rw [storeAll, List.foldl_cons]
      exact (inductionHypothesis beside.2).trans (load_store_beside beside.1)

theorem load_after {setting : ConfigEntry × Bytes} (accepts : Accepts setting) {start width : Nat}
    (beside : setting.1.Beside start width) (parsing : Parsing) :
    load (parsing.after setting).memory start width = load parsing.memory start width := by
  refine load_storeAll_beside fun written member => ?_
  have within := run_within accepts.1 written member
  rcases beside with before | behind
  · exact Or.inl (by omega)
  · exact Or.inr (by omega)

/-- Lines beside some bytes leave them. -/
theorem load_settings {settings : List (ConfigEntry × Bytes)}
    (accepts : ∀ setting ∈ settings, Accepts setting) {start width : Nat}
    (beside : ∀ entry ∈ settings.map Prod.fst, entry.Beside start width) (parsing : Parsing) :
    load (settings.foldl Parsing.after parsing).memory start width =
      load parsing.memory start width := by
  induction settings generalizing parsing with
  | nil => rfl
  | cons setting rest inductionHypothesis =>
      rw [List.map_cons, List.forall_mem_cons] at beside
      rw [List.forall_mem_cons] at accepts
      rw [List.foldl_cons, inductionHypothesis accepts.2 beside.2]
      exact load_after accepts.1 beside.1 parsing

/-- A line stands between those before it and those behind it. -/
theorem split_at {settings : List (ConfigEntry × Bytes)} {index : Nat}
    {setting : ConfigEntry × Bytes} (found : settings[index]? = some setting) :
    settings = settings.take index ++ setting :: settings.drop (index + 1) := by
  obtain ⟨bound, same⟩ := List.getElem?_eq_some_iff.mp found
  rw [← same, ← List.drop_eq_getElem_cons bound, List.take_append_drop]

/-- What a line leaves where no later line stores. -/
theorem load_settings_at {settings : List (ConfigEntry × Bytes)}
    (accepts : ∀ setting ∈ settings, Accepts setting) (index : Nat)
    {setting : ConfigEntry × Bytes} (found : settings[index]? = some setting) {start width : Nat}
    (beside : ∀ entry ∈ (settings.map Prod.fst).drop (index + 1), entry.Beside start width)
    (parsing : Parsing) :
    load (settings.foldl Parsing.after parsing).memory start width =
      load (((settings.take index).foldl Parsing.after parsing).after setting).memory
        start width := by
  conv_lhs => rw [split_at found, List.foldl_append, List.foldl_cons]
  refine load_settings (fun other member => accepts other (List.mem_of_mem_drop member)) ?_ _
  rw [List.map_drop]
  exact beside

/-- A part of a word that was stored. -/
theorem load_word (memory : Nat → UInt8) (address value : Nat) {skip width whole : Nat}
    (inside : skip + width ≤ whole) :
    load (store memory address (littleEndian whole value)) (address + skip) width =
      littleEndian width (value / 256 ^ skip) := by
  rw [load_store_inside (by rw [length_littleEndian]; exact inside),
    slice_littleEndian value inside]

/-- The low bytes of a word that was stored. -/
theorem load_low (memory : Nat → UInt8) (address value : Nat) {width whole : Nat}
    (inside : width ≤ whole) :
    load (store memory address (littleEndian whole value)) address width =
      littleEndian width value := by
  have read := @load_word memory address value 0 width whole (by omega)
  rwa [Nat.add_zero, Nat.pow_zero, Nat.div_one] at read

/-- What the line of an integer leaves. -/
theorem load_int {setting : ConfigEntry × Bytes} (int : setting.1.setter = .int) {width : Nat}
    (inside : width ≤ 8) (parsing : Parsing) :
    load (parsing.after setting).memory setting.1.field.offset width =
      littleEndian width ((strtoll (valueOf setting.2)).1 % 2 ^ 64).toNat := by
  simp only [Parsing.after, storesOf, int, Setter.run, setInt, storeAll, List.foldl_cons,
    List.foldl_nil]
  exact load_low _ _ _ inside

end TellyDB.Utils.Configuration
