import TellyDB.Database.File.Generate
import TellyDB.Database.Read.Records
import Mathlib.Data.Nat.Bitwise

/-!
Owns the string codec: what `generate_string_value` writes, `collect_string`
reads back, for every string of less than 2^30 bytes.
-/

namespace TellyDB.Database.Codec

open Resp Utils Lib.Positional Lib.ByteSource File Read

variable {σ : Type} (source : Source σ UInt8) {limit : Nat}

/-- Strings of this length and above are not representable. -/
def stringLimit : Nat := 0x40000000

/-! ## Byte counts -/

theorem lt_pow_getByteCount (value : Nat) : value < 256 ^ getByteCount value := by
  by_cases zero : value = 0
  · subst zero
    decide
  · rw [getByteCount, if_neg zero, show (256 : Nat) = 2 ^ 8 from rfl, ← Nat.pow_mul]
    calc value < 2 ^ (Nat.log2 value + 1) := Nat.lt_log2_self
      _ ≤ 2 ^ (8 * ((Nat.log2 value + 1 + 7) / 8)) :=
          Nat.pow_le_pow_right (by decide) (by omega)

theorem getByteCount_le {value width : Nat} (small : value < 256 ^ width) :
    getByteCount value ≤ width := by
  by_cases zero : value = 0
  · subst zero
    exact Nat.zero_le _
  · rw [show (256 : Nat) = 2 ^ 8 from rfl, ← Nat.pow_mul, ← Nat.log2_lt zero] at small
    rw [getByteCount, if_neg zero]
    omega

/-- The byte count and the low bits of the length that the first byte holds. -/
theorem firstByte_fields : ∀ (byteCount : Fin 4) (low : Fin 64),
    ((UInt8.ofNat (byteCount.val * 64) ||| UInt8.ofNat low.val) >>> 6).toNat = byteCount.val ∧
      ((UInt8.ofNat (byteCount.val * 64) ||| UInt8.ofNat low.val) &&& 0x3f).toNat = low.val := by
  decide

theorem specifier_byteCount_le {length : Nat} (short : length < stringLimit) :
    getByteCount (length / 64) ≤ 3 := by
  apply getByteCount_le
  have limits : stringLimit = 1073741824 := rfl
  have power : (256 : Nat) ^ 3 = 16777216 := by norm_num
  omega

theorem first_byteCount {length : Nat} (short : length < stringLimit) :
    ((UInt8.ofNat (getByteCount (length / 64) * 64) ||| UInt8.ofNat (length % 64)) >>> 6).toNat =
      getByteCount (length / 64) :=
  (firstByte_fields ⟨_, Nat.lt_succ_of_le (specifier_byteCount_le short)⟩
    ⟨length % 64, Nat.mod_lt _ (by decide)⟩).1

/-! ## The codec -/

theorem reads_byte (positive : 1 < limit) (byte : UInt8) :
    Reads source limit (collectByte source) [byte] byte :=
  (Reads.request [byte] rfl positive).bind_pure rfl

theorem length_generateStringValue (string : Bytes) : (generateStringValue string).length =
    1 + getByteCount (string.length / 64) + string.length := by
  simp only [generateStringValue, List.length_append, List.length_cons, length_littleEndian]
  omega

theorem reads_string (enough : stringLimit ≤ limit) {string : Bytes}
    (short : string.length < stringLimit) :
    Reads source limit (collectString source) (generateStringValue string)
      (string, (generateStringValue string).length) := by
  have limits : stringLimit = 1073741824 := rfl
  have count_small := specifier_byteCount_le short
  have fields := firstByte_fields ⟨getByteCount (string.length / 64), by omega⟩
    ⟨string.length % 64, Nat.mod_lt _ (by decide)⟩
  have high_eq := ofLittleEndian_littleEndian (lt_pow_getByteCount (string.length / 64))
  have length_eq : (string.length / 64 * 64) % UInt32.size ||| string.length % 64 =
      string.length := by
    have size : UInt32.size = 4294967296 := rfl
    rw [Nat.mod_eq_of_lt (by omega), Nat.mul_comm, show (64 : Nat) = 2 ^ 6 from rfl,
      ← Nat.two_pow_add_eq_or_of_lt (Nat.mod_lt _ (by decide)), Nat.div_add_mod]
  rw [length_generateStringValue, generateStringValue, List.cons_append]
  refine (reads_byte source (by omega) _).bind_cons ?_
  rw [fields.1]
  refine (Reads.request _ (length_littleEndian _ _) (by omega)).bind ?_
  rw [high_eq, fields.2, length_eq]
  exact (Reads.request _ rfl (by omega)).bind_pure rfl

/-- The specifier of a length: the first byte and the bytes of the length behind it. -/
def stringSpecifier (length : Nat) : Bytes :=
  (UInt8.ofNat (getByteCount (length / 64) * 64) ||| UInt8.ofNat (length % 64)) ::
    littleEndian (getByteCount (length / 64)) (length / 64)

theorem generateStringValue_eq (string : Bytes) :
    generateStringValue string = stringSpecifier string.length ++ string := rfl

theorem length_stringSpecifier (length : Nat) :
    (stringSpecifier length).length = 1 + getByteCount (length / 64) := by
  rw [stringSpecifier, List.length_cons, length_littleEndian, Nat.add_comm]

/-- The first byte settles how many bytes follow it, so no specifier continues another. -/
theorem stringSpecifier_prefix_free {first second : Nat} (firstShort : first < stringLimit)
    (secondShort : second < stringLimit)
    (continued : stringSpecifier first <+: stringSpecifier second) :
    stringSpecifier first = stringSpecifier second := by
  have heads := (List.cons_prefix_cons.mp continued).1
  have counts : getByteCount (first / 64) = getByteCount (second / 64) := by
    rw [← first_byteCount firstShort, heads, first_byteCount secondShort]
  apply continued.eq_of_length
  rw [length_stringSpecifier, length_stringSpecifier, counts]

/-- The string codec: up to three bytes behind the first one hold the length, a string of fewer
than 2^30 bytes comes back whatever follows it, and no specifier continues that of another
string. -/
theorem string_codec {string : Bytes} (short : string.length < stringLimit) :
    (∃ additional ≤ 3, (stringSpecifier string.length).length = 1 + additional ∧
      generateStringValue string = stringSpecifier string.length ++ string ∧
      (generateStringValue string).length = 1 + additional + string.length ∧
      ∀ {σ : Type} (source : Source σ UInt8) {limit : Nat}, stringLimit ≤ limit →
        Reads source limit (collectString source) (generateStringValue string)
          (string, 1 + additional + string.length)) ∧
    ∀ other : Bytes, other.length < stringLimit →
      stringSpecifier string.length <+: stringSpecifier other.length →
        stringSpecifier string.length = stringSpecifier other.length := by
  constructor
  · refine ⟨getByteCount (string.length / 64), specifier_byteCount_le short,
      length_stringSpecifier _, generateStringValue_eq string,
      length_generateStringValue string, ?_⟩
    intro σ source limit enough
    rw [← length_generateStringValue]
    exact reads_string source enough short
  · intro other otherShort continued
    exact stringSpecifier_prefix_free short otherShort continued

/-- A string of 64 bytes, whose length takes a second byte. -/
theorem string_codec_long :
    (∃ additional ≤ 3, (stringSpecifier (List.replicate 64 (0x61 : UInt8)).length).length =
        1 + additional ∧
      generateStringValue (List.replicate 64 0x61) =
        stringSpecifier (List.replicate 64 (0x61 : UInt8)).length ++ List.replicate 64 0x61 ∧
      (generateStringValue (List.replicate 64 0x61)).length =
        1 + additional + (List.replicate 64 (0x61 : UInt8)).length ∧
      ∀ {σ : Type} (source : Source σ UInt8) {limit : Nat}, stringLimit ≤ limit →
        Reads source limit (collectString source) (generateStringValue (List.replicate 64 0x61))
          (List.replicate 64 0x61, 1 + additional + (List.replicate 64 (0x61 : UInt8)).length)) ∧
    ∀ other : Bytes, other.length < stringLimit →
      stringSpecifier (List.replicate 64 (0x61 : UInt8)).length <+:
          stringSpecifier other.length →
        stringSpecifier (List.replicate 64 (0x61 : UInt8)).length =
          stringSpecifier other.length :=
  string_codec (by decide)

end TellyDB.Database.Codec
