import TellyDB.Database.Codec.Collections

/-!
Owns the record codec: `collect_kv` reads back what `generate_value` wrote, and
reports as many bytes as were written. The table of a record keeps its capacity,
so it has room for every field that comes.
-/

namespace TellyDB.Database.Codec

open Resp Utils Lib Positional ByteSource FiniteMap File Read HashTable

/-- A value as a server holds it: its table is made by the functions of the table, and its sizes
are 64-bit numbers. -/
def Held : Value → Prop
  | .scalar _ => True
  | .hashtable table => table.capacity < UInt64.size ∧ Reachable stringKeys table
  | .list elements => elements.length < UInt64.size

/-- What a value holds comes back. -/
def ValueStored : Value → Prop
  | .scalar value => ScalarStored value
  | .hashtable table => ∀ field ∈ table.present, FieldStored field
  | .list elements => ∀ element ∈ elements, ElementStored element

/-- The same type and the same contents, in tables of the same capacity. -/
def SameValue : Value → Value → Prop
  | .scalar loaded, .scalar value => loaded = value
  | .hashtable loaded, .hashtable table => loaded.Same table
  | .list loaded, .list elements => loaded = elements
  | _, _ => False

theorem ofLittleEndian_uint64 {value : Nat} (small : value < UInt64.size) :
    ofLittleEndian (littleEndian 8 value) = value :=
  ofLittleEndian_littleEndian small

/-- The fields are generated in the order of their slots. -/
theorem foreach_generate (table : HashTable Bytes Scalar) :
    foreachHashtable table
        (fun element written => do
          let written ← written
          let bytes ← generateHashtableElement element
          some (written ++ bytes)) (some []) =
      generateAll generateHashtableElement table.present := by
  rw [foreachHashtable_eq, foldl_generate, Option.bind_some]
  simp

section Reading

variable {σ : Type} (source : Source σ UInt8) {limit : Nat}

theorem reads_uint64 (enough : stringLimit ≤ limit) {value : Nat} (small : value < UInt64.size) :
    Reads source limit (collectUint64 source) (littleEndian 8 value) value := by
  have limits : stringLimit = 1073741824 := rfl
  refine (Reads.request _ (length_littleEndian 8 value) (by omega)).bind_pure ?_
  rw [ofLittleEndian_uint64 small]

/-- A table of the written capacity takes the fields of the written table. -/
theorem reads_table (enough : stringLimit ≤ limit) {table : HashTable Bytes Scalar}
    (reachable : Reachable stringKeys table)
    (stored : ∀ field ∈ table.present, FieldStored field) :
    ∃ bytes loaded, generateAll generateHashtableElement table.present = some bytes ∧
      loaded.Same table ∧ ∀ turns collected, table.count < turns →
        Reads source limit
          (collectFields source turns (createHashtable table.capacity stringKeys) collected)
          (bytes ++ [0x17]) (loaded, collected + bytes.length) := by
  have roomy := reachable.roomy
  have wellFormed := roomy.wellFormed
  have created : (createHashtable table.capacity stringKeys :
      HashTable Bytes Scalar).WellFormed := wellFormed_create wellFormed.positive stringKeys
  have empty : (createHashtable table.capacity stringKeys : HashTable Bytes Scalar).present = [] :=
    SlotArray.entries_free _
  have distinct : Distinct stringKeys.equality table.present := by
    have own := wellFormed.distinct
    rwa [reachable.keys_eq] at own
  have room : 4 * (0 + table.present.length) < 3 * table.capacity + 4 := by
    rw [Nat.zero_add, ← wellFormed.counted]
    exact roomy.room
  rcases reads_fields source enough stored created (by rw [empty, List.append_nil]; exact distinct)
    room with ⟨bytes, loaded, generated, loadedFormed, keys, capacity, present, reads⟩
  rw [empty, List.append_nil] at present
  refine ⟨bytes, loaded, generated, ?_, ?_⟩
  · exact loadedFormed.same wellFormed (keys.trans reachable.keys_eq.symm) capacity present
  · intro turns collected more
    exact reads turns collected (by rw [← wellFormed.counted]; exact more)

/-- What the generators write is a record of the value, whichever source delivers it. -/
theorem reads_record (enough : stringLimit ≤ limit) {kv : KeyValue}
    (short : kv.key.length < stringLimit) (held : Held kv.value) (stored : ValueStored kv.value) :
    ∃ bytes loaded turns, generateValue kv = some bytes ∧ loaded.key = kv.key ∧
      SameValue loaded.value kv.value ∧ ∀ fuel, turns ≤ fuel →
        Reads source limit (collectKv source fuel) bytes (loaded, bytes.length) := by
  have limits : stringLimit = 1073741824 := rfl
  have readsKey := reads_string source enough short
  rcases kv with ⟨key, value⟩
  cases value with
  | scalar value =>
      have primitive : isPrimitive value.type = true := isPrimitive_of_stored stored
      rcases reads_primitive source enough stored with ⟨bytes, generated, reads⟩
      refine ⟨generateStringValue key ++ value.type.code :: bytes, ⟨key, .scalar value⟩, 0, ?_,
        rfl, rfl, ?_⟩
      · simp only [generateValue, primitive, if_true, generated, Option.bind_eq_bind,
          Option.bind_some]
      · intro fuel _
        refine readsKey.bind ?_
        refine (reads_type source (by omega) value.type).bind_cons ?_
        have counted : (generateStringValue key ++ value.type.code :: bytes).length =
            (generateStringValue key).length + 1 + bytes.length := by
          rw [List.length_append, List.length_cons]
          omega
        rw [counted]
        cases value with
        | null => exact stored.elim
        | unknown => exact stored.elim
        | int number => exact reads.bind_pure rfl
        | double number => exact reads.bind_pure rfl
        | str string => exact reads.bind_pure rfl
        | bool boolean => exact reads.bind_pure rfl
  | hashtable table =>
      rcases reads_table source enough held.2 stored with ⟨bytes, loaded, generated, same, reads⟩
      refine ⟨generateStringValue key ++ TellyType.hashtable.code ::
          littleEndian 8 table.capacity ++ bytes ++ [0x17], ⟨key, .hashtable loaded⟩,
        table.count + 1, ?_, rfl, same, ?_⟩
      · simp only [generateValue]
        rw [foreach_generate, generated]
        rfl
      · intro fuel more
        have counted : (generateStringValue key ++ TellyType.hashtable.code ::
            littleEndian 8 table.capacity ++ bytes ++ [0x17]).length =
              (generateStringValue key).length + 1 + 8 + 1 + bytes.length := by
          simp only [List.length_append, List.length_cons, length_littleEndian, List.length_nil]
          omega
        rw [counted, List.append_assoc, List.append_assoc]
        refine readsKey.bind ?_
        refine (reads_type source (by omega) TellyType.hashtable).bind_cons ?_
        refine (reads_uint64 source enough held.1).bind ?_
        exact (reads fuel _ more).bind_pure rfl
  | list elements =>
      rcases reads_elements source enough stored with ⟨bytes, payload, generated, length, reads⟩
      refine ⟨generateStringValue key ++ TellyType.list.code ::
          littleEndian 8 elements.length ++ bytes, ⟨key, .list elements⟩, 0, ?_, rfl, rfl, ?_⟩
      · simp only [generateValue, generated, Option.bind_eq_bind, Option.bind_some]
      · intro fuel _
        have counted : (generateStringValue key ++ TellyType.list.code ::
            littleEndian 8 elements.length ++ bytes).length =
              (generateStringValue key).length + 1 + (8 + elements.length) + payload := by
          simp only [List.length_append, List.length_cons, length_littleEndian]
          omega
        rw [counted, List.append_assoc]
        refine readsKey.bind ?_
        refine (reads_type source (by omega) TellyType.list).bind_cons ?_
        refine (reads_uint64 source enough held).bind ?_
        exact (reads _).bind_pure rfl

end Reading

/-- The record codec: the bytes of a record, followed by any others, give its key and its value
back, and are counted as they were written. -/
theorem record_codec {kv : KeyValue} (short : kv.key.length < stringLimit)
    (held : Held kv.value) (stored : ValueStored kv.value) :
    ∃ bytes, generateValue kv = some bytes ∧
      ∀ {σ : Type} (source : Source σ UInt8) {limit : Nat}, stringLimit ≤ limit →
        ∃ loaded turns, loaded.key = kv.key ∧ SameValue loaded.value kv.value ∧
          ∀ fuel, turns ≤ fuel → ∀ state rest, source.Delivers limit state (bytes ++ rest) →
            ∃ next, collectKv source fuel state = some ((loaded, bytes.length), next) ∧
              source.Delivers limit next rest := by
  rcases reads_record (ofList UInt8) (Nat.le_refl stringLimit) short held stored with
    ⟨bytes, -, -, generated, -⟩
  refine ⟨bytes, generated, ?_⟩
  intro σ source limit enough
  rcases reads_record source enough short held stored with
    ⟨other, loaded, turns, again, sameKey, sameValue, reads⟩
  rw [generated, Option.some.injEq] at again
  subst again
  exact ⟨loaded, turns, sameKey, sameValue, reads⟩

/-- A list with an integer of two bytes, a string, a boolean and a null. -/
theorem record_codec_list :
    ∃ bytes, generateValue ⟨[0x6b],
        .list [.int (-300), .str [0x61, 0x62], .bool true, .null]⟩ = some bytes ∧
      ∀ {σ : Type} (source : Source σ UInt8) {limit : Nat}, stringLimit ≤ limit →
        ∃ loaded turns, loaded.key = [0x6b] ∧
          SameValue loaded.value (.list [.int (-300), .str [0x61, 0x62], .bool true, .null]) ∧
          ∀ fuel, turns ≤ fuel → ∀ state rest, source.Delivers limit state (bytes ++ rest) →
            ∃ next, collectKv source fuel state = some ((loaded, bytes.length), next) ∧
              source.Delivers limit next rest :=
  @record_codec ⟨[0x6b], .list [.int (-300), .str [0x61, 0x62], .bool true, .null]⟩
    (by decide) (by show 4 < UInt64.size; decide) (by
      intro element member
      simp only [List.mem_cons, List.not_mem_nil, or_false] at member
      rcases member with rfl | rfl | rfl | rfl
      · have bits : 9 ≤ integerBits := by decide
        exact Nat.lt_of_lt_of_le (by decide : 300 < 2 ^ 9)
          (Nat.pow_le_pow_right (by decide) bits)
      · show 2 < stringLimit
        decide
      · trivial
      · trivial)

end TellyDB.Database.Codec
