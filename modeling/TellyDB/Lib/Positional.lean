import Mathlib.Data.Nat.Digits.Defs

/-!
Owns numbers as bytes: little-endian machine words of any width, and big-endian
digit strings.
-/

namespace TellyDB.Lib.Positional

/-! ## Lowest digit first -/

/-- The lowest `width` bytes of a number, lowest first. -/
def littleEndian : Nat → Nat → List UInt8
  | 0, _ => []
  | width + 1, value => UInt8.ofNat (value % 256) :: littleEndian width (value / 256)

/-- The number of bytes given lowest first. -/
def ofLittleEndian (bytes : List UInt8) : Nat := Nat.ofDigits 256 (bytes.map UInt8.toNat)

@[simp] theorem length_littleEndian (width value : Nat) :
    (littleEndian width value).length = width := by
  induction width generalizing value with
  | zero => rfl
  | succ width inductionHypothesis => rw [littleEndian, List.length_cons, inductionHypothesis]

theorem ofLittleEndian_cons (byte : UInt8) (rest : List UInt8) :
    ofLittleEndian (byte :: rest) = byte.toNat + 256 * ofLittleEndian rest := by
  rw [ofLittleEndian, List.map_cons, Nat.ofDigits_cons]
  rfl

theorem ofLittleEndian_littleEndian_mod (width value : Nat) :
    ofLittleEndian (littleEndian width value) = value % 256 ^ width := by
  induction width generalizing value with
  | zero => exact (Nat.mod_one value).symm
  | succ width inductionHypothesis =>
      have digit : (UInt8.ofNat (value % 256)).toNat = value % 256 :=
        UInt8.toNat_ofNat_of_lt' (Nat.mod_lt _ (by decide))
      rw [littleEndian, ofLittleEndian_cons, inductionHypothesis, digit, Nat.pow_succ,
        Nat.mul_comm (256 ^ width), Nat.mod_mul]

theorem ofLittleEndian_littleEndian {width value : Nat} (small : value < 256 ^ width) :
    ofLittleEndian (littleEndian width value) = value := by
  rw [ofLittleEndian_littleEndian_mod, Nat.mod_eq_of_lt small]

/-- The bytes of a wide word from some place on. -/
theorem slice_littleEndian {skip width whole : Nat} (value : Nat) (inside : skip + width ≤ whole) :
    ((littleEndian whole value).drop skip).take width =
      littleEndian width (value / 256 ^ skip) := by
  induction skip generalizing whole value with
  | zero =>
      rw [List.drop_zero, Nat.pow_zero, Nat.div_one]
      induction width generalizing whole value with
      | zero => rw [List.take_zero, littleEndian]
      | succ width inductionHypothesis =>
          obtain ⟨rest, rfl⟩ := Nat.exists_eq_add_of_le' (Nat.le_trans (Nat.le_add_left 1 _) inside)
          rw [littleEndian, List.take_succ_cons, inductionHypothesis _ (by omega), littleEndian]
  | succ skip inductionHypothesis =>
      obtain ⟨rest, rfl⟩ := Nat.exists_eq_add_of_le' (show 1 ≤ whole by omega)
      rw [littleEndian, List.drop_succ_cons, inductionHypothesis _ (by omega), Nat.div_div_eq_div_mul,
        ← Nat.pow_succ']

theorem ofLittleEndian_lt (bytes : List UInt8) : ofLittleEndian bytes < 256 ^ bytes.length := by
  have bounded := Nat.ofDigits_lt_base_pow_length (b := 256) (l := bytes.map UInt8.toNat)
    (by decide) (by
      intro digit member
      rcases List.mem_map.mp member with ⟨byte, -, rfl⟩
      exact byte.toNat_lt)
  rwa [List.length_map] at bounded

/-! ## Highest digit first -/

/-- The number of digits given highest first. -/
def ofBigEndian (base : Nat) (digits : List Nat) : Nat :=
  digits.foldl (fun value digit => base * value + digit) 0

theorem foldl_bigEndian (base : Nat) (digits : List Nat) (value : Nat) :
    digits.foldl (fun value digit => base * value + digit) value =
      value * base ^ digits.length + Nat.ofDigits base digits.reverse := by
  induction digits generalizing value with
  | nil => simp
  | cons digit rest inductionHypothesis =>
      rw [List.foldl_cons, inductionHypothesis, List.reverse_cons, Nat.ofDigits_append,
        List.length_reverse, Nat.ofDigits_singleton, List.length_cons, Nat.pow_succ]
      ring

theorem ofBigEndian_eq_ofDigits (base : Nat) (digits : List Nat) :
    ofBigEndian base digits = Nat.ofDigits base digits.reverse := by
  rw [ofBigEndian, foldl_bigEndian, Nat.zero_mul, Nat.zero_add]

@[simp] theorem ofBigEndian_nil (base : Nat) : ofBigEndian base [] = 0 := rfl

theorem ofBigEndian_cons (base digit : Nat) (rest : List Nat) :
    ofBigEndian base (digit :: rest) = digit * base ^ rest.length + ofBigEndian base rest := by
  rw [ofBigEndian, List.foldl_cons, foldl_bigEndian, Nat.mul_zero, Nat.zero_add,
    ofBigEndian_eq_ofDigits]

theorem ofBigEndian_append (base : Nat) (front back : List Nat) :
    ofBigEndian base (front ++ back) =
      ofBigEndian base front * base ^ back.length + ofBigEndian base back := by
  rw [ofBigEndian_eq_ofDigits base back, ← foldl_bigEndian, ofBigEndian, List.foldl_append]
  rfl

theorem ofBigEndian_lt {base : Nat} {digits : List Nat} (above : 1 < base)
    (small : ∀ digit ∈ digits, digit < base) : ofBigEndian base digits < base ^ digits.length := by
  rw [ofBigEndian_eq_ofDigits, ← List.length_reverse]
  exact Nat.ofDigits_lt_base_pow_length above fun digit member =>
    small digit (List.mem_reverse.mp member)

end TellyDB.Lib.Positional
