import TellyDB.Database.Codec.Buffer
import TellyDB.Database.Codec.Limits

/-!
Owns what the readers take: as many bytes as they report, and never fewer than the
generators would write of the value that is read.
-/

namespace TellyDB.Database.Codec

open Resp Utils Lib Positional ByteSource FiniteMap File Read HashTable

/-- How long an entry of a database is. -/
def entryLength (entry : Bytes × KeyValue) : Nat := recordLength entry.2

/-- How long a database is in a file with all of its entries. -/
def databaseLength (database : LoadedDatabase) : Nat :=
  8 + textLength database.name.length + (database.data.present.map entryLength).sum

section Readers

variable {σ : Type} {source : Source σ UInt8} {invariant : σ → Prop} {place : σ → Nat}

/-! ## Strings and numbers -/

theorem takes_byte (tracks : source.Tracks invariant place) :
    Takes invariant place (collectByte source) fun _ taken => taken = 1 := by
  refine (Takes.request tracks 1).bind ?_
  rintro bytes count ⟨-, rfl⟩
  split
  · exact Takes.pure rfl
  · exact Takes.none

theorem takes_uint64 (tracks : source.Tracks invariant place) :
    Takes invariant place (collectUint64 source) fun _ taken => taken = 8 :=
  (Takes.request tracks 8).bind_pure fun _ _ held => held.2

theorem takes_type (tracks : source.Tracks invariant place) :
    Takes invariant place (collectType source) fun _ taken => taken = 1 := by
  refine (takes_byte tracks).bind ?_
  rintro byte count rfl
  exact Takes.lift fun _ _ => rfl

theorem or_div_64 {high low : Nat} (small : low < 64) : (high ||| low) / 64 = high / 64 := by
  have sixBits : (64 : Nat) = 2 ^ 6 := rfl
  have none : low >>> 6 = 0 := by
    rw [Nat.shiftRight_eq_div_pow, ← sixBits]
    exact Nat.div_eq_of_lt small
  rw [sixBits, ← Nat.shiftRight_eq_div_pow, ← Nat.shiftRight_eq_div_pow, Nat.shiftRight_or_distrib,
    none, Nat.or_zero]

/-- The bytes behind the first one hold at least the length that is read. -/
theorem takes_string (tracks : source.Tracks invariant place) :
    Takes invariant place (collectString source)
      fun read taken => taken = read.2 ∧ textLength read.1.length ≤ taken := by
  refine (takes_byte tracks).bind ?_
  rintro first count rfl
  refine (Takes.request tracks _).bind ?_
  rintro bytes count ⟨bytes_length, rfl⟩
  refine (Takes.request tracks _).bind_pure ?_
  rintro string count ⟨length, rfl⟩
  have low : (first &&& 0x3f).toNat < 64 := by
    rw [UInt8.toNat_and]
    exact Nat.lt_of_le_of_lt Nat.and_le_right (by decide)
  have high : string.length / 64 < 256 ^ (first >>> 6).toNat := by
    have bounded := ofLittleEndian_lt bytes
    have wrapped := Nat.mod_le (ofLittleEndian bytes * 64) UInt32.size
    rw [bytes_length] at bounded
    rw [length, or_div_64 low]
    omega
  have counted := getByteCount_le high
  rw [← length]
  refine ⟨(Nat.add_assoc _ _ _).symm, ?_⟩
  show textLength string.length ≤ _
  rw [textLength]
  omega

theorem takes_integer (tracks : source.Tracks invariant place) :
    Takes invariant place (collectInteger source)
      fun read taken => taken = read.2 ∧ scalarLength (.int read.1) ≤ taken := by
  refine (takes_byte tracks).bind ?_
  rintro specifier count rfl
  refine (Takes.request tracks _).bind_pure ?_
  rintro data count ⟨length, rfl⟩
  refine ⟨rfl, ?_⟩
  have digits_small : ∀ digit ∈ data.map UInt8.toNat, digit < 256 := by
    intro digit member
    obtain ⟨single, -, rfl⟩ := List.mem_map.mp member
    exact single.toNat_lt
  have bounded := ofBigEndian_lt (by decide) digits_small
  rw [← composeInteger_eq, List.length_map, length, show (256 : Nat) = 2 ^ 8 from rfl,
    ← Nat.pow_mul] at bounded
  have magnitude : (if specifier &&& 0x80 != 0 then -(composeInteger data : Int)
      else composeInteger data).natAbs = composeInteger data := by
    split <;> simp
  show scalarLength (.int (if specifier &&& 0x80 != 0 then -(composeInteger data : Int)
    else composeInteger data)) ≤ _
  generalize (if specifier &&& 0x80 != 0 then -(composeInteger data : Int)
    else composeInteger data) = number at magnitude
  have bits : mpzSizeinbase2 number ≤ 8 * ((specifier &&& 0x7f).toNat + 1) := by
    rw [mpzSizeinbase2]
    split
    · omega
    · next nonzero =>
        rw [magnitude]
        rw [← Int.natAbs_eq_zero, magnitude] at nonzero
        exact Nat.succ_le_of_lt ((Nat.log2_lt nonzero).mpr bounded)
  have wrapped := Nat.mod_le ((mpzSizeinbase2 number + 7) / 8) UInt8.size
  rw [scalarLength]
  omega

/-! ## Doubles -/

theorem exists_pairs (data : Bytes) :
    ∃ digits, pairs digits = data ∧ digits.length = 2 * data.length := by
  induction data with
  | nil => exact ⟨[], rfl, rfl⟩
  | cons byte rest inductionHypothesis =>
      obtain ⟨digits, rfl, length⟩ := inductionHypothesis
      have bounded := byte.toNat_lt
      refine ⟨⟨byte.toNat / 16, by omega⟩ :: ⟨byte.toNat % 16, by omega⟩ :: digits, ?_, ?_⟩
      · rw [pairs, Nat.div_add_mod, UInt8.ofNat_toNat]
      · simp only [List.length_cons, length]
        omega

/-- A text holds no more digits than the bytes it was printed from. -/
theorem doubleText_digits {indicated : Int} (exponent : indicated = -1 ∨ 0 ≤ indicated)
    {data text : Bytes} (some_data : 1 ≤ data.length)
    (printed_some : doubleText indicated data = some text) :
    ∃ whole fraction, parseHex text = some (whole, fraction) ∧
      (whole ++ fraction).length = 2 * data.length := by
  obtain ⟨digits, rfl, length⟩ := exists_pairs data
  have bytes : digits.length = 2 * (pairs digits).length := length
  by_cases held : indicated = -1
  · subst held
    by_cases above : decide (0x10 < (pairs digits).headD 0) = true
    · rw [doubleText_plain bytes some_data above] at printed_some
      cases printed_some
      refine ⟨digits, [], parseHex_characters digits, ?_⟩
      rw [List.append_nil, bytes]
    · rw [doubleText_overflow bytes some_data (Bool.eq_false_iff.mpr above)] at printed_some
      cases printed_some
  · obtain ⟨point, point_eq⟩ : ∃ point : Nat,
        (if decide (0x10 < (pairs digits).headD 0) then indicated else indicated + 1) = point := by
      refine ⟨_, (Int.toNat_of_nonneg ?_).symm⟩
      split <;> omega
    rw [doubleText_point bytes some_data held point_eq] at printed_some
    cases printed_some
    refine ⟨_, _, parseHex_pointText point digits, ?_⟩
    rw [List.take_append_drop, bytes]

theorem length_strip_le (digits : List (Fin 16)) : (strip digits).length ≤ digits.length :=
  (List.rdropWhile_prefix _ _).length_le.trans (List.dropWhile_sublist _).length_le

theorem makeDouble_digits {negative : Bool} {whole fraction : List (Fin 16)} {number : Double}
    (made : makeDouble negative whole fraction = some number) :
    number.digits.length ≤ (whole ++ fraction).length := by
  simp only [makeDouble] at made
  split at made
  · split at made
    · cases made
      exact length_strip_le _
    · cases made
      exact Nat.zero_le _
  · cases made

theorem takes_double (tracks : source.Tracks invariant place) :
    Takes invariant place (collectDouble source)
      fun read taken => taken = read.2 ∧ scalarLength (.double read.1) ≤ taken := by
  refine (Takes.request tracks 2).bind ?_
  rintro two count ⟨-, rfl⟩
  split
  · next specifier indicator =>
      refine (Takes.request tracks _).bind ?_
      rintro data count ⟨length, rfl⟩
      refine Takes.bind_lift ?_
      intro text printed_some
      refine Takes.bind_lift ?_
      intro number parsed
      refine Takes.pure ⟨rfl, ?_⟩
      have exponent : (if indicator &&& 0x80 != 0 then ((indicator &&& 0x7f).toNat : Int) else -1) =
          -1 ∨ 0 ≤ if indicator &&& 0x80 != 0 then ((indicator &&& 0x7f).toNat : Int) else -1 := by
        split
        · exact Or.inr (Int.natCast_nonneg _)
        · exact Or.inl rfl
      obtain ⟨whole, fraction, parsedText, digits⟩ :=
        doubleText_digits exponent (by omega) printed_some
      rw [mpfSetStr, parsedText] at parsed
      have shorter := makeDouble_digits parsed
      simp only [scalarLength]
      omega
  · exact Takes.none

theorem takes_primitive (tracks : source.Tracks invariant place) (type : TellyType) :
    Takes invariant place (collectPrimary source type)
      fun read taken => taken = read.2 ∧ scalarLength read.1 ≤ taken := by
  cases type with
  | unknown => exact Takes.pure ⟨rfl, Nat.le_refl _⟩
  | null => exact Takes.pure ⟨rfl, Nat.le_refl _⟩
  | int => exact (takes_integer tracks).bind_pure fun _ _ held => held
  | double => exact (takes_double tracks).bind_pure fun _ _ held => held
  | str => exact (takes_string tracks).bind_pure fun _ _ held => held
  | bool =>
      refine (takes_byte tracks).bind_pure ?_
      rintro byte count rfl
      exact ⟨rfl, Nat.le_refl _⟩
  | hashtable => exact Takes.none
  | list => exact Takes.none

/-! ## Collections -/

/-- How long a field is. -/
def fieldLength (field : Bytes × Scalar) : Nat :=
  1 + textLength field.1.length + scalarLength field.2

/-- The table that a file names the capacity of: nothing enters a table without slots. -/
def Loadable {V : Type} (table : HashTable Bytes V) : Prop :=
  table.capacity = 0 ∨ table.WellFormed

theorem loadable_create {V : Type} (capacity : Nat) :
    Loadable (createHashtable capacity stringKeys : HashTable Bytes V) := by
  rcases Nat.eq_zero_or_pos capacity with none | positive
  · exact Or.inl none
  · exact Or.inr (wellFormed_create positive stringKeys)

/-- What enters a table adds its own length to that of the entries, or nothing. -/
theorem insertLoaded_length {V : Type} {table after : HashTable Bytes V} (loadable : Loadable table)
    (length : Bytes × V → Nat) {name : Bytes} {value : V}
    (inserted : insertLoaded table name value = some after) :
    Loadable after ∧ (after.present.map length).sum ≤
      (table.present.map length).sum + length (name, value) := by
  rcases loadable with none | wellFormed
  · rw [insertLoaded, insertIntoHashtable, growHashtable, none] at inserted
    cases inserted
  · obtain ⟨reached, ran, reachedFormed, -, entered⟩ :=
      wellFormed.insertIntoHashtable_spec name value
    rw [insertLoaded, ran _ (Nat.le_refl _)] at inserted
    cases inserted
    refine ⟨Or.inr reachedFormed, ?_⟩
    rw [(entered.map length).sum_eq, insertIfAbsent]
    split
    · exact Nat.le_add_right _ _
    · rw [List.map_cons, List.sum_cons, Nat.add_comm]

/-- The byte behind the fields is counted in front of them. -/
theorem takes_fields (tracks : source.Tracks invariant place) (turns : Nat)
    {table : HashTable Bytes Scalar} (loadable : Loadable table) (collected : Nat) :
    Takes invariant place (collectFields source turns table collected)
      fun read taken => collected + taken = read.2 + 1 ∧
        (read.1.present.map fieldLength).sum + 1 ≤ (table.present.map fieldLength).sum + taken := by
  induction turns generalizing table collected with
  | zero => exact Takes.none
  | succ turns inductionHypothesis =>
      rw [collectFields]
      refine (takes_byte tracks).bind ?_
      rintro byte count rfl
      split
      · exact Takes.pure ⟨rfl, Nat.le_refl _⟩
      · refine (takes_string tracks).bind ?_
        rintro ⟨name, nameLength⟩ count ⟨rfl, name_length⟩
        refine Takes.bind_lift ?_
        intro type _
        refine (takes_primitive tracks type).bind ?_
        rintro ⟨value, valueLength⟩ count ⟨rfl, value_length⟩
        refine Takes.bind_lift ?_
        intro after inserted
        obtain ⟨afterLoadable, longer⟩ := insertLoaded_length loadable fieldLength inserted
        rw [fieldLength] at longer
        intro state read next holds ran
        obtain ⟨kept, count, moved, counted, length⟩ :=
          inductionHypothesis afterLoadable _ state read next holds ran
        refine ⟨kept, count, moved, ?_, ?_⟩ <;> dsimp only at * <;> omega

/-- The types of the elements are counted in front of them. -/
theorem takes_elements (tracks : source.Tracks invariant place) (count collected : Nat) :
    Takes invariant place (collectElements source count collected)
      fun read taken => collected + taken = read.2 + count ∧
        (read.1.map fun element => 1 + scalarLength element).sum ≤ taken := by
  induction count generalizing collected with
  | zero => exact Takes.pure ⟨rfl, Nat.le_refl _⟩
  | succ count inductionHypothesis =>
      rw [collectElements]
      refine (takes_type tracks).bind ?_
      rintro type taken rfl
      refine (takes_primitive tracks type).bind ?_
      rintro ⟨element, length⟩ taken ⟨rfl, element_length⟩
      refine (inductionHypothesis _).bind_pure ?_
      rintro ⟨elements, reported⟩ taken ⟨counted, elements_length⟩
      simp only [List.map_cons, List.sum_cons] at *
      omega

/-! ## Records and databases -/

theorem takes_kv (tracks : source.Tracks invariant place) (fuel : Nat) :
    Takes invariant place (collectKv source fuel)
      fun read taken => taken = read.2 ∧ recordLength read.1 ≤ taken := by
  refine (takes_string tracks).bind ?_
  rintro ⟨key, _⟩ keyLength ⟨rfl, key_length⟩
  refine (takes_type tracks).bind ?_
  rintro type taken rfl
  have scalar : ∀ type, Takes invariant place
      (collectPrimary source type >>= fun read =>
        (pure (⟨key, .scalar read.1⟩, keyLength + 1 + read.2) : Collecting σ (KeyValue × Nat)))
      fun read taken => keyLength + (1 + taken) = read.2 ∧
        recordLength read.1 ≤ keyLength + (1 + taken) := by
    intro type
    refine (takes_primitive tracks type).bind_pure ?_
    rintro ⟨value, length⟩ taken ⟨rfl, value_length⟩
    simp only [recordLength, valueLength] at *
    omega
  cases type with
  | unknown => exact scalar .unknown
  | null => exact scalar .null
  | int => exact scalar .int
  | double => exact scalar .double
  | str => exact scalar .str
  | bool => exact scalar .bool
  | hashtable =>
      refine (takes_uint64 tracks).bind ?_
      rintro capacity taken rfl
      refine (takes_fields tracks fuel (loadable_create capacity) _).bind_pure ?_
      rintro ⟨table, reported⟩ taken ⟨counted, length⟩
      have empty : (createHashtable capacity stringKeys : HashTable Bytes Scalar).present = [] :=
        SlotArray.entries_free _
      have same : valueLength (.hashtable table) = 9 + (table.present.map fieldLength).sum := rfl
      rw [empty, List.map_nil, List.sum_nil] at length
      simp only [recordLength, same] at *
      omega
  | list =>
      refine (takes_uint64 tracks).bind ?_
      rintro count taken rfl
      refine (takes_elements tracks count _).bind_pure ?_
      rintro ⟨elements, reported⟩ taken ⟨counted, length⟩
      simp only [recordLength, valueLength] at *
      omega

theorem takes_records (tracks : source.Tracks invariant place) (fuel count : Nat)
    {data : HashTable Bytes KeyValue} (loadable : Loadable data) (collected : Nat) :
    Takes invariant place (collectRecords source fuel count data collected)
      fun read taken => collected + taken = read.2 ∧
        (read.1.present.map entryLength).sum ≤ (data.present.map entryLength).sum + taken := by
  induction count generalizing data collected with
  | zero => exact Takes.pure ⟨rfl, Nat.le_refl _⟩
  | succ count inductionHypothesis =>
      rw [collectRecords]
      refine (takes_kv tracks fuel).bind ?_
      rintro ⟨kv, length⟩ taken ⟨rfl, kv_length⟩
      refine Takes.bind_lift ?_
      intro after inserted
      obtain ⟨afterLoadable, longer⟩ := insertLoaded_length loadable entryLength inserted
      rw [entryLength] at longer
      intro state read next holds ran
      obtain ⟨kept, taken, moved, counted, length⟩ :=
        inductionHypothesis afterLoadable _ state read next holds ran
      refine ⟨kept, taken, moved, ?_, ?_⟩ <;> dsimp only at * <;> omega

theorem takes_database (tracks : source.Tracks invariant place) (fuel : Nat) :
    Takes invariant place (collectDatabase source fuel)
      fun read taken => taken = read.2.2 ∧ databaseLength read.1 ≤ taken := by
  refine (takes_uint64 tracks).bind ?_
  rintro count taken rfl
  refine (takes_string tracks).bind ?_
  rintro ⟨name, nameLength⟩ taken ⟨rfl, name_length⟩
  refine (takes_records tracks fuel count (loadable_create _) _).bind_pure ?_
  rintro ⟨data, reported⟩ taken ⟨counted, length⟩
  rw [show (createHashtable _ stringKeys : HashTable Bytes KeyValue).present = [] from
    SlotArray.entries_free _, List.map_nil, List.sum_nil] at length
  simp only [databaseLength] at *
  omega

/-- The databases that are read take the bytes that the size of the file promises, and are at
most as long. -/
theorem takes_databases (tracks : source.Tracks invariant place) (fuel fileSize turns collected : Nat) :
    Takes invariant place (collectDatabases source fuel fileSize turns collected)
      fun databases taken => collected + taken = fileSize ∧
        (databases.map databaseLength).sum ≤ taken := by
  induction turns generalizing collected with
  | zero => exact Takes.none
  | succ turns inductionHypothesis =>
      rw [collectDatabases]
      refine (takes_database tracks fuel).bind ?_
      rintro ⟨database, count, _⟩ length ⟨rfl, database_length⟩
      dsimp only at database_length ⊢
      split
      · next complete => exact Takes.pure ⟨complete, by simpa using database_length⟩
      · refine (inductionHypothesis _).bind_pure ?_
        rintro databases taken ⟨counted, databases_length⟩
        simp only [List.map_cons, List.sum_cons] at *
        omega

end Readers

end TellyDB.Database.Codec
