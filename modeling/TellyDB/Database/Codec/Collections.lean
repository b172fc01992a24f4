import TellyDB.Database.Codec.Values
import TellyDB.Utils.HashTable.Loading

/-!
Owns the codec of collections: the elements of a list in their order, and the
fields of a hash table up to the byte that ends them, into a table that keeps
the capacity of the written one.
-/

namespace TellyDB.Database.Codec

open Resp Utils Lib Positional ByteSource FiniteMap File Read HashTable

variable {σ : Type} (source : Source σ UInt8) {limit : Nat}

/-! ## Generators in a row -/

theorem length_mapM {α β : Type} {generate : α → Option β} {values : List α} {results : List β}
    (generated : values.mapM generate = some results) : results.length = values.length := by
  induction values generalizing results with
  | nil =>
      cases generated
      rfl
  | cons value rest inductionHypothesis =>
      rw [List.mapM_cons, Option.bind_eq_bind, Option.bind_eq_some_iff] at generated
      rcases generated with ⟨result, -, generatedRest⟩
      rw [Option.bind_eq_bind, Option.bind_eq_some_iff] at generatedRest
      rcases generatedRest with ⟨more, generatedMore, made⟩
      cases made
      rw [List.length_cons, List.length_cons, inductionHypothesis generatedMore]

section Sequences

variable {α : Type} {generate : α → Option Bytes}

@[simp] theorem generateAll_nil : generateAll generate [] = some [] := rfl

theorem generateAll_cons (value : α) (rest : List α) :
    generateAll generate (value :: rest) =
      (generate value).bind fun bytes => (generateAll generate rest).map (bytes ++ ·) := by
  rw [generateAll, generateAll, List.mapM_cons]
  cases generate value with
  | none => rfl
  | some bytes =>
      cases rest.mapM generate with
      | none => rfl
      | some more => rfl

/-- The loop that appends what it generates. -/
theorem foldl_generate (values : List α) (written : Option Bytes) :
    values.foldl (fun written value => do
        let written ← written
        let bytes ← generate value
        some (written ++ bytes)) written =
      written.bind fun written => (generateAll generate values).map (written ++ ·) := by
  induction values generalizing written with
  | nil => cases written <;> simp
  | cons value rest inductionHypothesis =>
      rw [List.foldl_cons, inductionHypothesis, generateAll_cons]
      cases written with
      | none => rfl
      | some written =>
          cases generate value with
          | none => rfl
          | some bytes => cases generateAll generate rest <;> simp

end Sequences

/-! ## Lists -/

/-- The elements come back in their order. Their types are counted with the list. -/
theorem reads_elements (enough : stringLimit ≤ limit) {elements : List Scalar}
    (stored : ∀ element ∈ elements, ElementStored element) :
    ∃ bytes payload, generateAll generateListElement elements = some bytes ∧
      bytes.length = elements.length + payload ∧
      ∀ collected, Reads source limit (collectElements source elements.length collected) bytes
        (elements, collected + payload) := by
  have limits : stringLimit = 1073741824 := rfl
  induction elements with
  | nil => exact ⟨[], 0, rfl, rfl, fun collected => Reads.pure _⟩
  | cons element rest inductionHypothesis =>
      rcases reads_element source enough (stored element List.mem_cons_self) with
        ⟨bytes, generated, reads⟩
      rcases inductionHypothesis fun other member => stored other (List.mem_cons_of_mem _ member)
        with ⟨more, payload, generatedRest, length, readsRest⟩
      refine ⟨element.type.code :: bytes ++ more, bytes.length + payload, ?_, ?_, ?_⟩
      · rw [generateAll_cons, generated, Option.bind_some, generatedRest, Option.map_some]
      · rw [List.length_append, List.length_cons, List.length_cons, length]
        omega
      · intro collected
        rw [List.length_cons, ← Nat.add_assoc]
        refine (reads_type source (by omega) element.type).bind_cons ?_
        refine reads.bind ?_
        exact (readsRest (collected + bytes.length)).bind_pure rfl

/-! ## Hash tables -/

theorem code_ne_end (type : TellyType) : type.code ≠ 0x17 := by
  cases type <;> decide

/-- A field with a name and a value that come back. -/
def FieldStored (field : Bytes × Scalar) : Prop :=
  field.1.length < stringLimit ∧ ScalarStored field.2

/-- The entry that a field becomes. -/
theorem insertLoaded_absent {V : Type} {table : HashTable Bytes V}
    (wellFormed : table.WellFormed) {name : Bytes}
    (absent : find table.keys.equality table.present name = none) (value : V) :
    ∃ after, insertLoaded table name value = some after ∧ after.WellFormed ∧
      after.keys = table.keys ∧ after.present.Perm ((name, value) :: table.present) ∧
      (4 * table.count < 3 * table.capacity → after.capacity = table.capacity) := by
  rcases wellFormed.insert_absent absent value with ⟨after, result, inserted, entered⟩
  refine ⟨after, ?_, entered⟩
  rw [insertLoaded, inserted]
  rfl

/-- The fields enter the table, which has room for them. -/
theorem reads_fields (enough : stringLimit ≤ limit) {fields : List (Bytes × Scalar)}
    (stored : ∀ field ∈ fields, FieldStored field) {table : HashTable Bytes Scalar}
    (wellFormed : table.WellFormed)
    (distinct : Distinct table.keys.equality (fields ++ table.present))
    (room : 4 * (table.count + fields.length) < 3 * table.capacity + 4) :
    ∃ bytes loaded, generateAll generateHashtableElement fields = some bytes ∧
      loaded.WellFormed ∧ loaded.keys = table.keys ∧ loaded.capacity = table.capacity ∧
      loaded.present.Perm (fields ++ table.present) ∧
      ∀ turns collected, fields.length < turns →
        Reads source limit (collectFields source turns table collected) (bytes ++ [0x17])
          (loaded, collected + bytes.length) := by
  have limits : stringLimit = 1073741824 := rfl
  induction fields generalizing table with
  | nil =>
      refine ⟨[], table, rfl, wellFormed, rfl, rfl, List.Perm.refl _, ?_⟩
      intro turns collected positive
      cases turns with
      | zero => exact absurd positive (Nat.not_lt_zero _)
      | succ turns =>
          exact (reads_byte source (by omega) 0x17).bind_pure rfl
  | cons field rest inductionHypothesis =>
      rcases field with ⟨name, value⟩
      have fieldStored := stored (name, value) List.mem_cons_self
      rcases reads_primitive source enough fieldStored.2 with
        ⟨valueBytes, generated, readsValue⟩
      have readsName := reads_string source enough fieldStored.1
      have apart := List.pairwise_cons.mp distinct
      have absent : find table.keys.equality table.present name = none := by
        rw [find_eq_none_iff]
        intro entry member
        rw [KeyEquality.same_comm]
        exact apart.1 entry (List.mem_append_right _ member)
      rcases insertLoaded_absent wellFormed absent value with
        ⟨after, inserted, afterFormed, sameKeys, entered, kept⟩
      rw [List.length_cons] at room
      have capacity_eq := kept (by omega)
      have count_eq : after.count = table.count + 1 := by
        rw [afterFormed.counted, entered.length_eq, List.length_cons, wellFormed.counted]
      have moved : (rest ++ after.present).Perm ((name, value) :: rest ++ table.present) :=
        ((entered.append_left rest).trans List.perm_middle)
      have restDistinct : Distinct after.keys.equality (rest ++ after.present) := by
        rw [sameKeys]
        exact distinct.perm moved.symm
      rcases inductionHypothesis
          (fun other member => stored other (List.mem_cons_of_mem _ member)) afterFormed
          restDistinct (by rw [count_eq, capacity_eq]; omega) with
        ⟨more, loaded, generatedRest, loadedFormed, loadedKeys, loadedCapacity, present, reads⟩
      refine ⟨value.type.code :: generateStringValue name ++ valueBytes ++ more, loaded, ?_,
        loadedFormed, loadedKeys.trans sameKeys, loadedCapacity.trans capacity_eq,
        present.trans moved, ?_⟩
      · rw [generateAll_cons, generateHashtableElement, generated, Option.bind_eq_bind,
          Option.bind_some, Option.bind_some, generatedRest, Option.map_some]
      · intro turns collected more_turns
        rw [List.length_cons] at more_turns
        cases turns with
        | zero => exact absurd more_turns (Nat.not_lt_zero _)
        | succ turns =>
            have counted : collected + (value.type.code :: generateStringValue name ++
                valueBytes ++ more).length = collected + (generateStringValue name).length + 1 +
                  valueBytes.length + more.length := by
              rw [List.length_append, List.length_append, List.length_cons]
              omega
            rw [counted, List.append_assoc, List.append_assoc, collectFields]
            refine (reads_byte source (by omega) value.type.code).bind_cons ?_
            rw [if_neg (code_ne_end _)]
            refine readsName.bind ?_
            refine Reads.bind_lift (TellyType.ofCode_code _) ?_
            refine readsValue.bind ?_
            refine Reads.bind_lift inserted ?_
            exact reads turns _ (by omega)

end TellyDB.Database.Codec
