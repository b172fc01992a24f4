import TellyDB.Database.Codec.Doubles
import TellyDB.Database.Codec.Integers

/-!
Owns the codec of a value that is no collection: which values the generators
write so that `COLLECT_PRIMARY_TYPES` reads them back.
-/

namespace TellyDB.Database.Codec

open Resp Utils Lib.Positional Lib.ByteSource File Read

variable {σ : Type} (source : Source σ UInt8) {limit : Nat}

/-- A value that has a generator and comes back from what it writes. -/
def ScalarStored : Scalar → Prop
  | .int number => number.natAbs < 2 ^ integerBits
  | .double number => DoubleStored number
  | .str string => string.length < stringLimit
  | .bool _ => True
  | .null | .unknown => False

/-- In a list a null is its type alone. -/
def ElementStored : Scalar → Prop
  | .null | .unknown => True
  | element => ScalarStored element

theorem isPrimitive_of_stored {value : Scalar} (stored : ScalarStored value) :
    isPrimitive value.type = true := by
  cases value with
  | null => exact stored.elim
  | unknown => exact stored.elim
  | _ => rfl

theorem reads_type (positive : 1 < limit) (type : TellyType) :
    Reads source limit (collectType source) [type.code] type :=
  (reads_byte source positive type.code).bind_end (Reads.lift (TellyType.ofCode_code type))

/-- A stored value is read back, with the bytes that were written. -/
theorem reads_primitive (enough : stringLimit ≤ limit) {value : Scalar}
    (stored : ScalarStored value) :
    ∃ bytes, generatePrimitive value = some bytes ∧
      Reads source limit (collectPrimary source value.type) bytes (value, bytes.length) := by
  have limits : stringLimit = 1073741824 := rfl
  cases value with
  | null => exact stored.elim
  | unknown => exact stored.elim
  | int number =>
      rcases reads_integer source enough stored with ⟨bytes, generated, reads⟩
      exact ⟨bytes, generated, reads.bind_pure rfl⟩
  | double number =>
      rcases double_cases source enough stored.1 with ⟨bytes, generated, reads, -⟩
      exact ⟨bytes, generated, (reads stored).bind_pure rfl⟩
  | str string => exact ⟨_, rfl, (reads_string source enough stored).bind_pure rfl⟩
  | bool boolean =>
      refine ⟨_, rfl, (reads_byte source (by omega) _).bind_pure ?_⟩
      cases boolean <;> rfl

/-- A stored element of a list, behind its type. -/
theorem reads_element (enough : stringLimit ≤ limit) {element : Scalar}
    (stored : ElementStored element) :
    ∃ bytes, generateListElement element = some (element.type.code :: bytes) ∧
      Reads source limit (collectPrimary source element.type) bytes (element, bytes.length) := by
  have written : ScalarStored element → ∃ bytes,
      generateListElement element = some (element.type.code :: bytes) ∧
        Reads source limit (collectPrimary source element.type) bytes
          (element, bytes.length) := by
    intro scalarStored
    rcases reads_primitive source enough scalarStored with ⟨bytes, generated, reads⟩
    refine ⟨bytes, ?_, reads⟩
    rw [generateListElement, if_pos (isPrimitive_of_stored scalarStored), generated]
    rfl
  cases element with
  | null => exact ⟨[], rfl, Reads.pure _⟩
  | unknown => exact ⟨[], rfl, Reads.pure _⟩
  | int number => exact written stored
  | double number => exact written stored
  | str string => exact written stored
  | bool boolean => exact written stored

end TellyDB.Database.Codec
