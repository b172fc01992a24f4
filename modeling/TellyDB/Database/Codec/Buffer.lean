import TellyDB.Database.Codec.Records
import TellyDB.Database.Codec.Doubles
import TellyDB.Database.File.Size

/-!
Owns whether the buffer of a record is large enough. The estimate of a string takes
the byte count of its length and leaves out the specifier, and the estimate of a
double counts the digits it would have if it were rounded to half of them, so what an
estimate leaves out depends on the lengths of the strings and the digits of the doubles.
-/

namespace TellyDB.Database.Codec

open Resp Utils Lib.Positional File HashTable

/-- How long the record of a string of this length is. -/
def textLength (length : Nat) : Nat := 1 + getByteCount (length / 64) + length

/-- How long the record of a value is. -/
def scalarLength : Scalar → Nat
  | .int number => 1 + ((mpzSizeinbase2 number + 7) / 8) % UInt8.size
  | .double number => 2 + (number.digits.length + 1) / 2
  | .str string => textLength string.length
  | .bool _ => 1
  | .null | .unknown => 0

def valueLength : Value → Nat
  | .scalar value => scalarLength value
  | .hashtable table => 9 + (table.present.map fun field =>
      1 + textLength field.1.length + scalarLength field.2).sum
  | .list elements => 8 + (elements.map fun value => 1 + scalarLength value).sum

/-- How long a record is, by the lengths of its strings and the digits of its numbers. -/
def recordLength (kv : KeyValue) : Nat := textLength kv.key.length + 1 + valueLength kv.value

/-- How much the estimate of a string of this length leaves out: a byte where the length takes as
many bytes as the length without its six low bits, and what is lost where the sum has 33 bits. -/
def stringShortfall (length : Nat) : Nat :=
  (if getBitCount length % 8 = 7 ∨ getBitCount length % 8 = 0 then 1 else 0) +
    UInt32.size * ((getByteCount length + length) / UInt32.size)

/-- How much the estimate of a value leaves out; it is negative where the estimate is too large. -/
def scalarShortfall : Scalar → Int
  | .str string => stringShortfall string.length
  | .double number =>
      ((number.digits.length + 1) / 2 : Nat) - (roundDigits estimatedDigits number.digits).length
  | _ => 0

def valueShortfall : Value → Int
  | .scalar value => scalarShortfall value
  | .hashtable table => (table.present.map fun field =>
      stringShortfall field.1.length + scalarShortfall field.2).sum
  | .list elements => (elements.map scalarShortfall).sum

/-- How much the estimate of a record leaves out. -/
def shortfall (kv : KeyValue) : Int :=
  stringShortfall kv.key.length + valueShortfall kv.value

/-- The buffer that `save_data` allocates holds each of the records: what `generate_value` returns,
and what it fills in. -/
def BufferSuffices (table : HashTable Bytes KeyValue) : Prop :=
  ∀ entry ∈ table.present,
    (∀ bytes, generateValue entry.2 = some bytes → bytes.length ≤ dataSize table) ∧
      (Generable entry.2.value → filledLength entry.2 ≤ dataSize table)

/-! ## Strings -/

theorem log2_div_64 {value : Nat} (large : 64 ≤ value) :
    Nat.log2 value = Nat.log2 (value / 64) + 6 := by
  have nonzero : value / 64 ≠ 0 := by omega
  have lower : 2 ^ Nat.log2 (value / 64) ≤ value / 64 := Nat.log2_self_le nonzero
  have upper : value / 64 < 2 ^ (Nat.log2 (value / 64) + 1) := Nat.lt_log2_self
  have sixBits : (2 : Nat) ^ 6 = 64 := rfl
  rw [Nat.log2_eq_iff (by omega), Nat.add_right_comm]
  constructor <;> rw [Nat.pow_add _ _ 6, sixBits] <;> omega

/-- A length takes one byte more than the length without its six low bits, or as many. -/
theorem getByteCount_div_64 (length : Nat) :
    getByteCount (length / 64) +
        (if getBitCount length % 8 = 7 ∨ getBitCount length % 8 = 0 then 0 else 1) =
      getByteCount length := by
  by_cases zero : length = 0
  · subst zero
    rfl
  · rcases Nat.lt_or_ge length 64 with small | large
    · have bits : Nat.log2 length < 6 := (Nat.log2_lt zero).mpr small
      have none : length / 64 = 0 := by omega
      simp only [getByteCount, getBitCount, none, zero, if_true, if_false]
      split <;> omega
    · have bits := log2_div_64 large
      have nonzero : length / 64 ≠ 0 := by omega
      simp only [getByteCount, getBitCount, nonzero, zero, if_false]
      split <;> omega

theorem textLength_eq (string : Bytes) :
    textLength string.length = getStringSize string + stringShortfall string.length := by
  have counts := getByteCount_div_64 string.length
  have division := Nat.mod_add_div (getByteCount string.length + string.length) UInt32.size
  rw [textLength, getStringSize, stringShortfall]
  generalize UInt32.size * _ = wrapped at division
  split at counts <;> simp_all <;> omega

/-! ## Doubles -/

theorem length_carry_le (digits : List (Fin 16)) : (carry digits).length ≤ max 1 digits.length := by
  induction digits with
  | nil => simp [carry]
  | cons digit rest inductionHypothesis =>
      unfold carry
      split
      · simp only [List.length_cons]
        omega
      · simp

theorem length_roundDigits_le {count : Nat} (positive : 1 ≤ count) (digits : List (Fin 16)) :
    (roundDigits count digits).length ≤ count := by
  unfold roundDigits
  split
  · next beyond => exact List.getElem?_eq_none_iff.mp beyond
  · next digit held =>
      have kept := length_carry_le (digits.take count).reverse
      have taken := List.length_take_le count digits
      rw [List.length_reverse] at kept ⊢
      apply (List.dropWhile_sublist _).length_le.trans
      split
      · omega
      · rw [List.length_reverse]
        exact taken

theorem getScalarSize_double (number : Double) :
    getScalarSize (.double number) = (roundDigits estimatedDigits number.digits).length + 2 := by
  have short : (roundDigits estimatedDigits number.digits).length ≤ 128 :=
    length_roundDigits_le (by decide) _
  simp only [getScalarSize, mpfGetStrShort, head_hexText, length_hexText, Nat.add_sub_cancel]
  exact Nat.mod_eq_of_lt (by show _ < 256; omega)

theorem scalarLength_eq (value : Scalar) :
    (scalarLength value : Int) = getScalarSize value + scalarShortfall value := by
  cases value with
  | int number => simp [scalarLength, getScalarSize, scalarShortfall, Int.add_comm]
  | double number =>
      rw [getScalarSize_double, scalarLength, scalarShortfall]
      omega
  | str string =>
      simp only [scalarLength, getScalarSize, scalarShortfall, textLength_eq]
      omega
  | _ => simp [scalarLength, getScalarSize, scalarShortfall]

theorem primitiveLength_eq (value : Scalar) : primitiveLength value = scalarLength value := by
  cases value with
  | double number =>
      have short : number.digits.length ≤ 256 := number.short
      simp only [primitiveLength, doubleLength, mpfGetStr, head_hexText, length_hexText,
        Nat.add_sub_cancel, scalarLength]
      rw [Nat.mod_eq_of_lt (by show _ < 256; omega)]
  | _ => rfl

/-! ## Records -/

theorem foldl_sizes {α : Type} (size : α → Nat) (values : List α) (start : Nat) :
    values.foldl (fun length value => length + size value) start =
      start + (values.map size).sum := by
  induction values generalizing start with
  | nil => simp
  | cons value rest inductionHypothesis =>
      simp [inductionHypothesis, Nat.add_assoc]

theorem sum_shortfall {α : Type} (length size : α → Nat) (missing : α → Int)
    (each : ∀ value, (length value : Int) = size value + missing value) (values : List α) :
    ((values.map length).sum : Int) = (values.map size).sum + (values.map missing).sum := by
  induction values with
  | nil => simp
  | cons value rest inductionHypothesis =>
      have first := each value
      simp only [List.map_cons, List.sum_cons]
      omega

/-- A record is as long as its estimate and what the estimate leaves out. -/
theorem recordLength_eq (kv : KeyValue) :
    (recordLength kv : Int) =
      (1 + getStringSize kv.key + getValueSize kv.value : Nat) + shortfall kv := by
  have key := textLength_eq kv.key
  rw [recordLength, shortfall]
  cases kv.value with
  | scalar value =>
      have length := scalarLength_eq value
      simp only [getValueSize, valueLength, valueShortfall]
      omega
  | hashtable table =>
      have lengths := sum_shortfall
        (fun field : HashTableElement Bytes Scalar =>
          1 + textLength field.1.length + scalarLength field.2)
        (fun field => 1 + getStringSize field.1 + getScalarSize field.2)
        (fun field => stringShortfall field.1.length + scalarShortfall field.2) (by
          intro field
          have name := textLength_eq field.1
          have value := scalarLength_eq field.2
          omega) table.present
      simp only [getValueSize, valueLength, valueShortfall, foreachHashtable_eq, getHashtableSize,
        foldl_sizes]
      omega
  | list elements =>
      have lengths := sum_shortfall (fun value => 1 + scalarLength value)
        (fun value => 1 + getScalarSize value) scalarShortfall (by
          intro value
          have length := scalarLength_eq value
          omega) elements
      simp only [getValueSize, valueLength, valueShortfall, foldl_sizes]
      omega

/-- `generate_value` fills in the whole record. -/
theorem filledLength_eq (kv : KeyValue) : filledLength kv = recordLength kv := by
  unfold filledLength recordLength
  cases kv.value with
  | scalar value => simp [valueLength, primitiveLength_eq, stringLength, textLength]
  | hashtable table =>
      simp only [valueLength, foreachHashtable_eq, foldl_sizes, primitiveLength_eq, stringLength,
        textLength]
      omega
  | list elements =>
      simp only [valueLength, foldl_sizes, primitiveLength_eq, stringLength, textLength]
      omega

/-! ## Generators -/

theorem length_generateBytes {hex bytes : Bytes} {negative : Bool} {byteCount : Nat}
    (generated : generateBytes hex negative byteCount = some bytes) :
    bytes.length = byteCount := by
  simp only [generateBytes, Option.bind_eq_bind, Option.bind_eq_some_iff] at generated
  obtain ⟨last, -, made⟩ := generated
  rw [length_mapM made, List.length_range]

theorem length_generatePrimitive {value : Scalar} {bytes : Bytes}
    (generated : generatePrimitive value = some bytes) :
    bytes.length = primitiveLength value ∧ isPrimitive value.type := by
  cases value with
  | int number =>
      simp only [generatePrimitive, generateIntegerValue, Option.bind_eq_bind,
        Option.bind_eq_some_iff, Option.some.injEq] at generated
      obtain ⟨data, packed, rfl⟩ := generated
      simp [length_generateBytes packed, primitiveLength, integerLength, Scalar.type, isPrimitive,
        Nat.add_comm]
  | double number =>
      simp only [generatePrimitive, generateDoubleValue, Option.bind_eq_bind,
        Option.bind_eq_some_iff, Option.some.injEq] at generated
      obtain ⟨data, packed, rfl⟩ := generated
      refine ⟨?_, rfl⟩
      simp only [List.length_cons, length_generateBytes packed, primitiveLength, doubleLength]
      omega
  | str string =>
      simp only [generatePrimitive, Option.some.injEq] at generated
      simp [← generated, length_generateStringValue, primitiveLength, stringLength, Scalar.type,
        isPrimitive]
  | bool boolean =>
      simp only [generatePrimitive, Option.some.injEq] at generated
      simp [← generated, generateBooleanValue, primitiveLength, Scalar.type, isPrimitive]
  | _ => simp [generatePrimitive] at generated

theorem generateAll_each {α : Type} {generate : α → Option Bytes} (length : α → Nat)
    {values : List α} {bytes : Bytes} (generated : generateAll generate values = some bytes)
    (each : ∀ value part, generate value = some part → part.length = length value) :
    bytes.length = (values.map length).sum ∧ ∀ value ∈ values, (generate value).isSome := by
  induction values generalizing bytes with
  | nil =>
      simp only [generateAll_nil, Option.some.injEq] at generated
      simp [← generated]
  | cons value rest inductionHypothesis =>
      simp only [generateAll_cons, Option.bind_eq_some_iff, Option.map_eq_some_iff] at generated
      obtain ⟨part, first, more, others, rfl⟩ := generated
      obtain ⟨lengths, defined⟩ := inductionHypothesis others
      simp [each value part first, lengths, first]
      exact defined

/-- `generate_value` returns what it has filled in, or nothing. -/
theorem generateValue_length {kv : KeyValue} {bytes : Bytes}
    (generated : generateValue kv = some bytes) :
    (bytes = [] ∨ bytes.length = filledLength kv) ∧ Generable kv.value := by
  have key := length_generateStringValue kv.key
  unfold generateValue at generated
  unfold filledLength Generable
  cases held : kv.value with
  | scalar value =>
      simp only [held] at generated
      split at generated
      · simp only [Option.bind_eq_bind, Option.bind_eq_some_iff, Option.some.injEq] at generated
        obtain ⟨data, made, rfl⟩ := generated
        simp [key, stringLength, (length_generatePrimitive made).1]
        omega
      · simp only [Option.some.injEq] at generated
        simp [← generated]
  | hashtable table =>
      rw [held] at generated
      dsimp only at generated
      rw [foreach_generate] at generated
      simp only [Option.bind_eq_bind, Option.bind_eq_some_iff, Option.some.injEq] at generated
      obtain ⟨fields, made, rfl⟩ := generated
      obtain ⟨lengths, defined⟩ := generateAll_each
        (fun field : HashTableElement Bytes Scalar =>
          1 + stringLength field.1 + primitiveLength field.2) made (by
        intro field part one
        simp only [generateHashtableElement, Option.bind_eq_bind, Option.bind_eq_some_iff,
          Option.some.injEq] at one
        obtain ⟨value, valueMade, rfl⟩ := one
        simp [length_generateStringValue, (length_generatePrimitive valueMade).1, stringLength]
        omega)
      constructor
      · right
        simp only [List.length_append, List.length_cons, List.length_nil, key, foreachHashtable_eq,
          foldl_sizes, lengths, length_littleEndian, stringLength]
      · intro field member
        obtain ⟨part, one⟩ := Option.isSome_iff_exists.mp (defined field member)
        simp only [generateHashtableElement, Option.bind_eq_bind, Option.bind_eq_some_iff] at one
        obtain ⟨value, valueMade, -⟩ := one
        exact (length_generatePrimitive valueMade).2
  | list elements =>
      simp only [held, Option.bind_eq_bind, Option.bind_eq_some_iff, Option.some.injEq] at generated
      obtain ⟨data, made, rfl⟩ := generated
      have each : ∀ element part, generateListElement element = some part →
          part.length = 1 + primitiveLength element := by
        intro element part one
        unfold generateListElement at one
        split at one
        · simp only [Option.bind_eq_bind, Option.bind_eq_some_iff, Option.some.injEq] at one
          obtain ⟨value, valueMade, rfl⟩ := one
          simp [(length_generatePrimitive valueMade).1, Nat.add_comm]
        · simp only [Option.some.injEq] at one
          subst one
          cases element <;> simp_all [isPrimitive, Scalar.type, primitiveLength]
      simp [key, stringLength, foldl_sizes, (generateAll_each _ made each).1]
      omega

/-! ## The buffer -/

theorem le_foldl_max {α : Type} (size : α → Nat) (values : List α) (start bound : Nat) :
    bound ≤ values.foldl (fun maxSize value =>
        if maxSize > size value then maxSize else size value) start ↔
      bound ≤ start ∨ ∃ value ∈ values, bound ≤ size value := by
  induction values generalizing start with
  | nil => simp
  | cons value rest inductionHypothesis =>
      simp only [List.foldl_cons, inductionHypothesis, List.exists_mem_cons_iff, ← or_assoc]
      apply or_congr_left
      split <;> omega

/-- The estimate of a database is as large as its largest. -/
theorem le_dataSize_iff {table : HashTable Bytes KeyValue}
    (keyed : ∀ entry ∈ table.present, entry.1 = entry.2.key) {bound : Nat} (positive : 1 ≤ bound) :
    bound ≤ dataSize table ↔
      ∃ other ∈ table.present, (bound : Int) + shortfall other.2 ≤ recordLength other.2 := by
  have largest := le_foldl_max (fun entry : HashTableElement Bytes KeyValue =>
    1 + getStringSize entry.1 + getValueSize entry.2.value) table.present 0 bound
  have none : ¬bound ≤ 0 := by omega
  simp only [dataSize, foreachHashtable_eq, getMaximumKeyvalueSize]
  rw [largest, or_iff_right none]
  apply exists_congr
  intro other
  apply and_congr_right
  intro member
  have length := recordLength_eq other.2
  rw [keyed other member]
  omega

theorem filledLength_le_dataSize_iff {table : HashTable Bytes KeyValue}
    (keyed : ∀ entry ∈ table.present, entry.1 = entry.2.key) (kv : KeyValue) :
    filledLength kv ≤ dataSize table ↔ ∃ other ∈ table.present,
      (recordLength kv : Int) + shortfall other.2 ≤ recordLength other.2 := by
  have positive : 1 ≤ recordLength kv := by
    rw [recordLength]
    omega
  rw [filledLength_eq, le_dataSize_iff keyed positive]

/-- What is returned is filled in before. -/
theorem BufferSuffices.of_filled {table : HashTable Bytes KeyValue}
    (fits : ∀ entry ∈ table.present, Generable entry.2.value →
      filledLength entry.2 ≤ dataSize table) : BufferSuffices table := by
  intro entry member
  refine ⟨?_, fits entry member⟩
  intro bytes generated
  obtain ⟨rfl | whole, generable⟩ := generateValue_length generated
  · exact Nat.zero_le _
  · rw [whole]
    exact fits entry member generable

/-- The buffer holds every record exactly when for each there is one in the database that is as
long, what its own estimate leaves out taken off. -/
theorem buffer_suffices_iff {table : HashTable Bytes KeyValue}
    (keyed : ∀ entry ∈ table.present, entry.1 = entry.2.key) :
    BufferSuffices table ↔ ∀ entry ∈ table.present, Generable entry.2.value →
      ∃ other ∈ table.present,
        (recordLength entry.2 : Int) + shortfall other.2 ≤ recordLength other.2 := by
  constructor
  · intro holds entry member generable
    exact (filledLength_le_dataSize_iff keyed entry.2).mp ((holds entry member).2 generable)
  · intro roomy
    apply BufferSuffices.of_filled
    intro entry member generable
    exact (filledLength_le_dataSize_iff keyed entry.2).mpr (roomy entry member generable)

/-- A database with one record. -/
def oneRecord (kv : KeyValue) : HashTable Bytes KeyValue where
  capacity := 1
  count := 1
  elements slot := if slot = 0 then some (kv.key, kv) else none
  keys := stringKeys

theorem oneRecord_present (kv : KeyValue) : (oneRecord kv).present = [(kv.key, kv)] := by
  simp [present, Lib.SlotArray.entries, oneRecord]

theorem oneRecord_keyed (kv : KeyValue) :
    ∀ entry ∈ (oneRecord kv).present, entry.1 = entry.2.key := by
  simp [oneRecord_present]

/-- A key of 64 bytes, one more than its length has low bits for. -/
def longKey : KeyValue := ⟨List.replicate 64 0x6b, .scalar (.bool true)⟩

theorem buffer_suffices_short : BufferSuffices (oneRecord ⟨[0x6b], .scalar (.bool true)⟩) :=
  (buffer_suffices_iff (oneRecord_keyed _)).mpr (by
    simp only [oneRecord_present, List.mem_singleton, forall_eq, exists_eq_left]
    exact fun _ => by decide +kernel)

/-- The record of a key of 64 bytes with a boolean takes 68 bytes, and 67 are allocated. -/
theorem buffer_too_small : filledLength longKey = 68 ∧ dataSize (oneRecord longKey) = 67 ∧
    ¬ BufferSuffices (oneRecord longKey) := by
  have filled : filledLength longKey = 68 := by decide +kernel
  have allocated : dataSize (oneRecord longKey) = 67 := by decide +kernel
  refine ⟨filled, allocated, ?_⟩
  intro holds
  have fits := (holds (longKey.key, longKey) (by simp [oneRecord_present])).2 trivial
  change filledLength longKey ≤ _ at fits
  omega

end TellyDB.Database.Codec
