import TellyDB.Database.Codec.Digits

/-!
Owns the integer codec: what `generate_integer_value` writes, `collect_integer`
reads back, for every integer of magnitude below 2^1024, and no other integer is
ever read.
-/

namespace TellyDB.Database.Codec

open Resp Utils Lib.Positional Lib.ByteSource File Read

variable {σ : Type} (source : Source σ UInt8) {limit : Nat}

/-- The bits of the magnitude that the specifier can count. -/
def integerBits : Nat := 1024

/-! ## The digits of an integer -/

theorem length_hexDigits_pos (number : Nat) : hexDigits number ≠ [] := by
  rw [hexDigits]
  split
  · exact List.cons_ne_nil _ _
  · next nonzero =>
      rw [Ne, List.reverse_eq_nil_iff, List.map_eq_nil_iff]
      exact Nat.digits_ne_nil_iff_ne_zero.mpr nonzero

theorem ofBigEndian_hexDigits (number : Nat) :
    ofBigEndian 16 ((hexDigits number).map Fin.val) = number := by
  rw [hexDigits]
  split
  · next zero =>
      rw [zero]
      rfl
  · have digits : ((Nat.digits 16 number).map (Fin.ofNat 16)).map Fin.val =
        Nat.digits 16 number := by
      rw [List.map_map]
      conv_rhs => rw [← List.map_id (Nat.digits 16 number)]
      apply List.map_congr_left
      intro digit member
      exact Nat.mod_eq_of_lt (Nat.digits_lt_base (by decide) member)
    rw [ofBigEndian_eq_ofDigits, List.map_reverse, List.reverse_reverse, digits,
      Nat.ofDigits_digits]

theorem length_hexDigits {number : Nat} (nonzero : number ≠ 0) :
    (hexDigits number).length = Nat.log 16 number + 1 := by
  rw [hexDigits, if_neg nonzero, List.length_reverse, List.length_map,
    Nat.length_digits 16 number (by decide) nonzero]

/-- The bytes that hold the bits of an integer hold its digits. -/
theorem byteCount_eq (number : Int) :
    (mpzSizeinbase2 number + 7) / 8 = ((hexDigits number.natAbs).length + 1) / 2 := by
  by_cases zero : number = 0
  · subst zero
    rfl
  · have nonzero : number.natAbs ≠ 0 := Int.natAbs_ne_zero.mpr zero
    rw [mpzSizeinbase2, if_neg zero, length_hexDigits nonzero]
    generalize number.natAbs = magnitude at nonzero
    have lower : 16 ^ Nat.log 16 magnitude ≤ magnitude := Nat.pow_log_le_self 16 nonzero
    have upper : magnitude < 16 ^ (Nat.log 16 magnitude + 1) :=
      Nat.lt_pow_succ_log_self (by decide) magnitude
    rw [show (16 : Nat) = 2 ^ 4 from rfl, ← Nat.pow_mul] at lower upper
    have above : 4 * Nat.log (2 ^ 4) magnitude ≤ Nat.log2 magnitude :=
      (Nat.le_log2 nonzero).mpr lower
    have below : Nat.log2 magnitude < 4 * (Nat.log (2 ^ 4) magnitude + 1) :=
      (Nat.log2_lt nonzero).mpr upper
    show (Nat.log2 magnitude + 1 + 7) / 8 = (Nat.log (2 ^ 4) magnitude + 1 + 1) / 2
    omega

theorem mpzSizeinbase2_le {number : Int} (small : number.natAbs < 2 ^ integerBits) :
    mpzSizeinbase2 number ≤ integerBits := by
  rw [mpzSizeinbase2]
  split
  · decide
  · next nonzero =>
      exact Nat.succ_le_of_lt ((Nat.log2_lt (Int.natAbs_ne_zero.mpr nonzero)).mpr small)

/-! ## The codec -/

/-- What the loop of `collect_integer` keeps. -/
theorem foldl_shift (data : Bytes) (value : Nat) :
    data.foldl (fun number byte => (number ||| byte.toNat) * 256) (256 * value) =
      256 * (data.map UInt8.toNat).foldl (fun value digit => 256 * value + digit) value := by
  induction data generalizing value with
  | nil => rfl
  | cons byte rest inductionHypothesis =>
      have merged : (256 * value ||| byte.toNat) = 256 * value + byte.toNat :=
        (Nat.two_pow_add_eq_or_of_lt (i := 8) byte.toNat_lt value).symm
      rw [List.foldl_cons, merged, Nat.mul_comm, inductionHypothesis, List.map_cons,
        List.foldl_cons]

theorem composeInteger_eq (data : Bytes) :
    composeInteger data = ofBigEndian 256 (data.map UInt8.toNat) := by
  rcases List.eq_nil_or_concat data with rfl | ⟨front, last, rfl⟩
  · rfl
  · have shifted := foldl_shift front 0
    rw [Nat.mul_zero] at shifted
    rw [composeInteger, List.concat_eq_append, List.dropLast_concat, List.getLast?_concat, shifted]
    show (256 * ofBigEndian 256 (front.map UInt8.toNat) ||| last.toNat) = _
    rw [← Nat.two_pow_add_eq_or_of_lt (i := 8) last.toNat_lt, List.map_append,
      ofBigEndian_append]
    show 256 * _ + _ = _ * 256 ^ 1 + ofBigEndian 256 [last.toNat]
    rw [ofBigEndian_cons, Nat.pow_one, Nat.mul_comm, List.length_nil, Nat.pow_zero, Nat.mul_one,
      ofBigEndian_nil, Nat.add_zero]

theorem reads_integer (enough : stringLimit ≤ limit) {number : Int}
    (small : number.natAbs < 2 ^ integerBits) :
    ∃ bytes, generateIntegerValue number = some bytes ∧
      Reads source limit (collectInteger source) bytes (number, bytes.length) := by
  have limits : stringLimit = 1073741824 := rfl
  have nonempty := length_hexDigits_pos number.natAbs
  have positive : 1 ≤ (hexDigits number.natAbs).length := List.length_pos_iff.mpr nonempty
  have count_eq := byteCount_eq number
  have count_le : (mpzSizeinbase2 number + 7) / 8 ≤ 128 := by
    have bits : mpzSizeinbase2 number ≤ 1024 := mpzSizeinbase2_le small
    omega
  have wrap : (mpzSizeinbase2 number + 7) / 8 % UInt8.size =
      ((hexDigits number.natAbs).length + 1) / 2 := by
    rw [← count_eq]
    exact Nat.mod_eq_of_lt (Nat.lt_of_le_of_lt count_le (by decide))
  have packed := generateBytes_eq nonempty (by omega) (decide (number < 0))
  have length : (pairs (padded (hexDigits number.natAbs))).length =
      ((hexDigits number.natAbs).length + 1) / 2 := by
    rw [length_pairs, length_padded]
    omega
  obtain ⟨before, count⟩ : ∃ before, ((hexDigits number.natAbs).length + 1) / 2 = before + 1 :=
    ⟨((hexDigits number.natAbs).length + 1) / 2 - 1, by omega⟩
  have fields := specifier_fields ⟨before, by omega⟩ (decide (number < 0))
  have magnitude : composeInteger (pairs (padded (hexDigits number.natAbs))) = number.natAbs := by
    rw [composeInteger_eq, ofBigEndian_pairs _ (by rw [length_padded]; omega), ofBigEndian_padded,
      ofBigEndian_hexDigits]
  refine ⟨specifier (before + 1) (decide (number < 0)) ::
    pairs (padded (hexDigits number.natAbs)), ?_, ?_⟩
  · simp only [generateIntegerValue, mpzGetStr, wrap, packed, Option.bind_eq_bind,
      Option.bind_some]
    rw [count]
  · refine (reads_byte source (by omega) _).bind_cons ?_
    rw [fields.1, fields.2]
    refine (Reads.request _ (length.trans count) (by omega)).bind_pure ?_
    have signed : (if decide (number < 0) then -(number.natAbs : Int) else number.natAbs) =
        number := by
      by_cases negative : number < 0
      · rw [if_pos (decide_eq_true negative)]
        omega
      · rw [if_neg (by simpa using negative)]
        omega
    rw [magnitude, List.length_cons, length, count, Nat.add_comm (before + 1)]
    dsimp only
    rw [signed]

/-- No integer of a larger magnitude is read from anything. -/
theorem collectInteger_small {state next : σ} {number : Int} {collected : Nat}
    (read : collectInteger source state = some ((number, collected), next)) :
    number.natAbs < 2 ^ integerBits := by
  rw [collectInteger, bind_apply, Option.bind_eq_some_iff] at read
  rcases read with ⟨⟨byte, middle⟩, -, read⟩
  rw [bind_apply, Option.bind_eq_some_iff] at read
  rcases read with ⟨⟨data, last⟩, requested, read⟩
  have length : data.length = (byte &&& 0x7f).toNat + 1 := source.length_eq requested
  have masked : (byte &&& 0x7f).toNat ≤ 127 := by
    rw [UInt8.toNat_and]
    exact Nat.and_le_right
  have digits_small : ∀ digit ∈ data.map UInt8.toNat, digit < 256 := by
    intro digit member
    rcases List.mem_map.mp member with ⟨single, -, rfl⟩
    exact single.toNat_lt
  have bounded := ofBigEndian_lt (by decide) digits_small
  have small : composeInteger data < 2 ^ integerBits := by
    rw [composeInteger_eq]
    refine Nat.lt_of_lt_of_le bounded ?_
    rw [List.length_map, length, show (256 : Nat) = 2 ^ 8 from rfl, ← Nat.pow_mul]
    exact Nat.pow_le_pow_right (by decide) (by show _ ≤ 1024; omega)
  simp only [pure_apply, Option.some.injEq, Prod.mk.injEq] at read
  rw [← read.1.1]
  split
  · rwa [Int.natAbs_neg, Int.natAbs_natCast]
  · rwa [Int.natAbs_natCast]

/-- The integer codec: an integer of magnitude below 2^1024 comes back from the bytes that are
written for it, whatever follows them, and as many bytes are counted as were written. -/
theorem integer_codec {number : Int} (small : number.natAbs < 2 ^ integerBits) :
    ∃ bytes, generateIntegerValue number = some bytes ∧
      ∀ {σ : Type} (source : Source σ UInt8) {limit : Nat}, stringLimit ≤ limit →
        Reads source limit (collectInteger source) bytes (number, bytes.length) := by
  obtain ⟨bytes, generated, -⟩ := reads_integer (ofList UInt8) (Nat.le_refl stringLimit) small
  refine ⟨bytes, generated, ?_⟩
  intro σ source limit enough
  obtain ⟨again, generatedAgain, reads⟩ := reads_integer source enough small
  rw [generated, Option.some.injEq] at generatedAgain
  subst generatedAgain
  exact reads

/-- A negative integer with an odd number of digits. -/
theorem integer_codec_negative :
    ∃ bytes, generateIntegerValue (-300) = some bytes ∧
      ∀ {σ : Type} (source : Source σ UInt8) {limit : Nat}, stringLimit ≤ limit →
        Reads source limit (collectInteger source) bytes (-300, bytes.length) := by
  apply integer_codec
  calc (-300 : Int).natAbs < 2 ^ 9 := by decide
    _ ≤ 2 ^ integerBits := Nat.pow_le_pow_right (by decide) (by decide)

end TellyDB.Database.Codec
