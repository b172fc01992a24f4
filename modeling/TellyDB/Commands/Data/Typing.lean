import TellyDB.Commands.Data.Pushes
import TellyDB.Commands.Data.Settings

/-!
Owns the type that `SET`, `LPUSH`, `RPUSH` and `HSET` give an argument, which should come from
its bytes alone.
-/

namespace TellyDB.Commands.Data

open Resp Server Database.Keyspace
open TellyDB.Database (Scalar Table)

variable {mpf : Mpf} {input : Argument}

/-! ## The value of an argument -/

/-- The value that the bytes of an argument denote. -/
def typedBytes (mpf : Mpf) (bytes : Bytes) : Scalar :=
  if isNumeral bytes then .int (integerValue bytes)
  else if tryParseDouble ⟨bytes, []⟩ then .double (mpf.setStr (bytes ++ [0]))
  else if bytes = text "true" then .bool true
  else if bytes = text "false" then .bool false
  else if bytes = text "null" then .null
  else .str bytes

/-- What lies behind the argument in the buffer does not change what is read of it. -/
structure TypedAlone (mpf : Mpf) (input : Argument) : Prop where
  integer : isNumeral input.bytes = true →
    IsInteger input.bytes ∧ input.Ends ∧ ReadAlone (integerValue input.bytes) input.following
  double : tryParseDouble input = true → mpf.setStr input.memory = mpf.setStr (input.bytes ++ [0])
  word : isNumeral input.bytes = false → tryParseDouble input = false →
    input.bytes ≠ text "true" →
      (input.streq "false" = true ↔ input.bytes = text "false") ∧
        (input.streq "null" = true ↔ input.bytes = text "null")

/-- The three classifiers make this value of the argument. -/
structure Classified (mpf : Mpf) (input : Argument) (value : Scalar) : Prop where
  set : valueAs mpf input (inferredType input) = value
  push : pushedValue mpf input = value
  field : fieldValue mpf input = value

theorem sstreq_iff (constant : String) : input.sstreq constant = true ↔ input.bytes = text constant :=
  beq_iff_eq

theorem tryParseInteger_numeral (integer : tryParseInteger input = true) :
    isNumeral input.bytes = true := ((tryParseInteger_iff input).mp integer).1.isNumeral

/-- The classifiers of a numeral. -/
theorem classified_numeral_iff (numeral : isNumeral input.bytes = true) :
    Classified mpf input (typedBytes mpf input.bytes) ↔
      IsInteger input.bytes ∧ input.Ends ∧ ReadAlone (integerValue input.bytes) input.following := by
  have double := tryParseDouble_numeral input numeral
  rw [typedBytes, if_pos numeral]
  by_cases integer : tryParseInteger input = true
  · obtain ⟨isInteger, ends⟩ := (tryParseInteger_iff input).mp integer
    have reads := mpzInitSetStr_integer_iff isInteger input.following
    rw [and_iff_right isInteger, and_iff_right ends, ← reads]
    constructor
    · intro classified
      have pushed := classified.push
      rw [pushedValue, if_pos integer] at pushed
      exact Scalar.int.inj pushed
    · intro same
      constructor
      · rw [inferredType, if_pos integer, valueAs, mpzInitSetStr_terminated isInteger []]
      · rw [pushedValue, if_pos integer]
        exact congrArg Scalar.int same
      · simp only [fieldValue, integer, Bool.true_or, ↓reduceIte]
        exact congrArg Scalar.int same
  · apply iff_of_false
    · intro classified
      have pushed := classified.push
      simp only [pushedValue, integer, double, Bool.false_eq_true, ↓reduceIte] at pushed
      split_ifs at pushed
    · rintro ⟨isInteger, ends, _⟩
      exact integer ((tryParseInteger_iff input).mpr ⟨isInteger, ends⟩)

theorem not_integer (other : isNumeral input.bytes = false) : tryParseInteger input = false := by
  rw [← Bool.not_eq_true]
  intro integer
  rw [tryParseInteger_numeral integer] at other
  cases other

/-- The classifiers of a double. -/
theorem classified_double_iff (other : isNumeral input.bytes = false)
    (double : tryParseDouble input = true) :
    Classified mpf input (typedBytes mpf input.bytes) ↔
      mpf.setStr input.memory = mpf.setStr (input.bytes ++ [0]) := by
  have integer := not_integer other
  have alone : tryParseDouble ⟨input.bytes, []⟩ = true := double
  have typed : typedBytes mpf input.bytes = .double (mpf.setStr (input.bytes ++ [0])) := by
    simp only [typedBytes, other, alone, Bool.false_eq_true, ↓reduceIte]
  rw [typed]
  constructor
  · intro classified
    have pushed := classified.push
    simp only [pushedValue, integer, double, Bool.false_eq_true, ↓reduceIte] at pushed
    exact Scalar.double.inj pushed
  · intro same
    constructor
    · simp only [inferredType, integer, double, Bool.false_eq_true, ↓reduceIte, valueAs]
    · simp only [pushedValue, integer, double, Bool.false_eq_true, ↓reduceIte, same]
    · simp only [fieldValue, integer, double, Bool.or_true, Bool.false_eq_true, ↓reduceIte, same]

/-- What is neither a number nor a keyword for `SET`, `LPUSH` and `RPUSH`. -/
theorem typedBytes_word (other : isNumeral input.bytes = false)
    (double : tryParseDouble input = false) :
    typedBytes mpf input.bytes =
      if input.bytes = text "true" then .bool true
      else if input.bytes = text "false" then .bool false
      else if input.bytes = text "null" then .null
      else .str input.bytes := by
  have alone : tryParseDouble ⟨input.bytes, []⟩ = false := double
  simp only [typedBytes, other, alone, Bool.false_eq_true, ↓reduceIte]

/-- `HSET` compares C strings. -/
theorem fieldValue_word (integer : tryParseInteger input = false)
    (double : tryParseDouble input = false) (notTrue : input.bytes ≠ text "true") :
    fieldValue mpf input = if input.streq "false" then .bool false
      else if input.streq "null" then .null else .str input.bytes := by
  have notTrue_ : input.sstreq "true" = false := by
    rw [← Bool.not_eq_true, sstreq_iff]
    exact notTrue
  simp only [fieldValue, integer, double, notTrue_, Bool.or_self, Bool.false_or,
    Bool.false_eq_true, ↓reduceIte]

/-- `SET` and the pushes agree on words. -/
theorem set_word (integer : tryParseInteger input = false)
    (double : tryParseDouble input = false) :
    valueAs mpf input (inferredType input) = pushedValue mpf input := by
  simp only [inferredType, pushedValue, integer, double, Bool.false_eq_true, ↓reduceIte]
  split_ifs <;> rfl

theorem pushed_word (other : isNumeral input.bytes = false)
    (double : tryParseDouble input = false) :
    pushedValue mpf input = typedBytes mpf input.bytes := by
  rw [typedBytes_word other double]
  simp only [pushedValue, not_integer other, double, Bool.false_eq_true, ↓reduceIte,
    Bool.or_eq_true, sstreq_iff]
  by_cases isTrue : input.bytes = text "true"
  · rw [if_pos (.inl isTrue), if_pos isTrue, (sstreq_iff "true").mpr isTrue]
  · have notTrue : input.sstreq "true" = false := by
      rw [← Bool.not_eq_true, sstreq_iff]
      exact isTrue
    simp only [isTrue, false_or, ↓reduceIte, notTrue]

/-- A C string is not two words. -/
theorem streq_apart (same : input.streq "false" = true) : input.streq "null" = false := by
  rw [streq_iff (by decide)] at same
  rw [← Bool.not_eq_true, streq_iff (by decide), same]
  decide

theorem classified_word_iff (other : isNumeral input.bytes = false)
    (double : tryParseDouble input = false) :
    Classified mpf input (typedBytes mpf input.bytes) ↔
      (input.bytes ≠ text "true" →
        (input.streq "false" = true ↔ input.bytes = text "false") ∧
          (input.streq "null" = true ↔ input.bytes = text "null")) := by
  have integer := not_integer other
  have pushed : pushedValue mpf input = typedBytes mpf input.bytes := pushed_word other double
  have field : Classified mpf input (typedBytes mpf input.bytes) ↔
      fieldValue mpf input = typedBytes mpf input.bytes :=
    ⟨Classified.field, fun field => ⟨(set_word integer double).trans pushed, pushed, field⟩⟩
  rw [field, typedBytes_word other double]
  by_cases isTrue : input.bytes = text "true"
  · have same := (sstreq_iff "true").mpr isTrue
    refine iff_of_true ?_ fun notTrue => absurd isTrue notTrue
    simp only [fieldValue, integer, double, same, Bool.or_self, Bool.true_or, Bool.false_eq_true,
      ↓reduceIte, isTrue]
  · rw [fieldValue_word integer double isTrue, if_neg isTrue, imp_iff_right isTrue]
    have apart := @streq_apart input
    have distinct : text "false" ≠ text "null" := by decide
    generalize text "false" = no at distinct
    cases isFalse : input.streq "false" <;> cases isNull : input.streq "null" <;>
      by_cases bytesFalse : input.bytes = no <;> by_cases bytesNull : input.bytes = text "null" <;>
      simp_all

theorem classified_iff :
    Classified mpf input (typedBytes mpf input.bytes) ↔ TypedAlone mpf input := by
  cases numeral : isNumeral input.bytes with
  | true =>
      have double := tryParseDouble_numeral input numeral
      rw [classified_numeral_iff numeral]
      constructor
      · intro integer
        constructor
        · exact fun _ => integer
        · exact fun isDouble => absurd (double.symm.trans isDouble) Bool.false_ne_true
        · exact fun other => absurd (other.symm.trans numeral) Bool.false_ne_true
      · exact fun alone => alone.integer numeral
  | false =>
      cases double : tryParseDouble input with
      | true =>
          rw [classified_double_iff numeral double]
          constructor
          · intro same
            constructor
            · exact fun isNumeral => absurd (numeral.symm.trans isNumeral) Bool.false_ne_true
            · exact fun _ => same
            · exact fun _ other => absurd (other.symm.trans double) Bool.false_ne_true
          · exact fun alone => alone.double double
      | false =>
          rw [classified_word_iff numeral double]
          constructor
          · intro words
            constructor
            · exact fun isNumeral => absurd (numeral.symm.trans isNumeral) Bool.false_ne_true
            · exact fun isDouble => absurd (double.symm.trans isDouble) Bool.false_ne_true
            · exact fun _ _ => words
          · exact fun alone => alone.word numeral double

/-! ## What the commands store -/

/-- `SET` without options, `LPUSH`, `RPUSH` and `HSET` store this value for the argument. -/
structure StoresValue (mpf : Mpf) (input : Argument) (value : Scalar) : Prop where
  set : ∀ clock client permissions key data, Freeable data key → ∃ after reply,
    runSet mpf clock ⟨client, [key, input], permissions⟩ data = some (after, reply) ∧
      after.get key.bytes = some ⟨.scalar value, none⟩
  lpush : ∀ client permissions key following data elements, HoldsSequence data key elements →
    ∃ after reply,
      runLpush mpf ⟨client, [⟨key, following⟩, input], permissions⟩ data = some (after, reply) ∧
        HoldsSequence after key (value :: elements)
  rpush : ∀ client permissions key following data elements, HoldsSequence data key elements →
    ∃ after reply,
      runRpush mpf ⟨client, [⟨key, following⟩, input], permissions⟩ data = some (after, reply) ∧
        HoldsSequence after key (elements ++ [value])
  hset : ∀ client permissions key field (data : Data), data.get key.bytes = none →
    ∃ after reply table,
      runHset mpf ⟨client, [key, field, input], permissions⟩ data = some (after, reply) ∧
        after.get key.bytes = some ⟨.hashtable table, none⟩ ∧ table.get field.bytes = some value

variable (mpf input) in
/-- `SET` without options stores its own typed value. -/
theorem runSet_stores (clock : Option Nat) (client : Option ProtocolVersion)
    (permissions : Permissions) {key : Argument} {data : Data} (freeable : Freeable data key) :
    ∃ after reply, runSet mpf clock ⟨client, [key, input], permissions⟩ data = some (after, reply) ∧
      after.get key.bytes = some ⟨.scalar (valueAs mpf input (inferredType input)), none⟩ := by
  have typed : storedScalar (setValue mpf noOptions (unparsed input)) =
      some (valueAs mpf input (inferredType input)) := setValue_inferred rfl
  have included : ¬Excluded noOptions key data := by simp [Excluded, noOptions]
  have allowed : ¬Denied noOptions ⟨client, [key, input], permissions⟩ := by
    simp [Denied, noOptions]
  obtain ⟨after, set⟩ := Option.isSome_iff_exists.mp ((setData_isSome
    (.scalar (valueAs mpf input (inferredType input))) noOptions.expiry).mpr freeable)
  have run : runSet mpf clock ⟨client, [key, input], permissions⟩ data =
      runSetWith mpf noOptions (unparsed input) key ⟨client, [key, input], permissions⟩ data := rfl
  rw [run, set_stores included allowed typed, set, Option.bind_some]
  refine ⟨after, Entry.answer ⟨client, [key, input], permissions⟩ .ok, ?_, ?_⟩
  · cases client <;> rfl
  · rw [get_setData set, if_pos rfl]
    rfl

variable (mpf input) in
/-- `HSET` stores its own typed value. -/
theorem runHset_stores (client : Option ProtocolVersion) (permissions : Permissions)
    (key field : Argument) {data : Data} (absent : data.get key.bytes = none) :
    ∃ after reply table,
      runHset mpf ⟨client, [key, field, input], permissions⟩ data = some (after, reply) ∧
        after.get key.bytes = some ⟨.hashtable table, none⟩ ∧
        table.get field.bytes = some (fieldValue mpf input) := by
  simp only [runHset, getData, absent, List.length_cons, List.length_nil, setData]
  refine ⟨_, _, setFields mpf [field, input] (Table.create 16 capacity_positive), rfl, ?_, ?_⟩
  · rw [get_insert_absent absent, if_pos rfl]
  · have fields : setFields mpf [field, input] (Table.create 16 capacity_positive) =
        (Table.create 16 capacity_positive).insert field.bytes (fieldValue mpf input) := rfl
    rw [fields, Table.get_insert, Table.get_create, if_pos rfl, Option.none_or]

theorem HoldsSequence.single {data : Data} {key : Bytes} {value other : Scalar}
    (holds : HoldsSequence data key [value]) (others : HoldsSequence data key [other]) :
    value = other := by
  rw [HoldsSequence, if_neg (List.cons_ne_nil _ _)] at holds others
  cases holds.symm.trans others
  rfl

/-- The commands store the value that the bytes denote exactly where nothing behind the argument
is read for it. -/
theorem stores_typed_iff (mpf : Mpf) (input : Argument) :
    StoresValue mpf input (typedBytes mpf input.bytes) ↔ TypedAlone mpf input := by
  rw [← classified_iff]
  constructor
  · intro stores
    let empty : Data := Table.create 16 capacity_positive
    let key : Argument := ⟨[], []⟩
    have absent : empty.get key.bytes = none := Table.get_create ..
    have freeable : Freeable empty key := by
      intro list expiry held
      rw [absent] at held
      cases held
    have held : HoldsSequence empty [] [] := by
      rw [HoldsSequence, getData, Table.get_create]
      rfl
    constructor
    · obtain ⟨after, reply, ran, stored⟩ := stores.set none none 0 key empty freeable
      obtain ⟨other, _, ranAlso, own⟩ := runSet_stores mpf input none none 0 freeable
      cases ran.symm.trans ranAlso
      have same := own.symm.trans stored
      rw [Option.some_inj, KeyValue.mk.injEq, Value.scalar.injEq] at same
      exact same.1
    · obtain ⟨after, reply, ran, stored⟩ := stores.lpush none 0 [] [] empty [] held
      obtain ⟨other, _, ranAlso, own⟩ :=
        holds_runPush mpf "LPUSH" llInsertFront_linked (by simp) held none 0 [] [input]
      cases ran.symm.trans ranAlso
      exact own.single stored
    · obtain ⟨after, reply, table, ran, stored, value⟩ := stores.hset none 0 key key empty absent
      obtain ⟨other, _, _, ranAlso, own, field⟩ :=
        runHset_stores mpf input none 0 key key absent
      cases ran.symm.trans ranAlso
      cases own.symm.trans stored
      exact Option.some.inj (field.symm.trans value)
  · rintro ⟨set, push, field⟩
    constructor
    · intro clock client permissions key data freeable
      rw [← set]
      exact runSet_stores mpf input clock client permissions freeable
    · intro client permissions key following data elements held
      rw [← push]
      exact holds_runPush mpf "LPUSH" llInsertFront_linked (by simp) held client permissions
        following [input]
    · intro client permissions key following data elements held
      rw [← push]
      exact holds_runPush mpf "RPUSH" llInsertBack_linked (by simp) held client permissions
        following [input]
    · intro client permissions key field_ data absent
      rw [← field]
      exact runHset_stores mpf input client permissions key field_ absent

/-- HSET h f false stores a text where no NUL ends the argument. -/
theorem stores_typed_fails_for_false : ¬StoresValue Mpf.unused ⟨text "false", text "\r\n"⟩
    (typedBytes Mpf.unused (text "false")) := by
  intro stores
  let key : Argument := ⟨[], []⟩
  have absent : (Table.create 16 capacity_positive : Data).get key.bytes = none :=
    Table.get_create ..
  obtain ⟨after, reply, table, ran, stored, value⟩ := stores.hset none 0 key key _ absent
  obtain ⟨other, _, _, ranAlso, own, field⟩ :=
    runHset_stores Mpf.unused ⟨text "false", text "\r\n"⟩ none 0 key key absent
  cases ran.symm.trans ranAlso
  cases own.symm.trans stored
  have asText : fieldValue Mpf.unused ⟨text "false", text "\r\n"⟩ = .str (text "false") := by decide
  have asBoolean : typedBytes Mpf.unused (text "false") = .bool false := by decide
  rw [asText] at field
  rw [asBoolean] at value
  cases field.symm.trans value

end TellyDB.Commands.Data
