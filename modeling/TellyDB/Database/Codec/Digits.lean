import TellyDB.Database.Codec.Strings
import Mathlib.Data.Nat.Digits.Lemmas

/-!
Owns the digits of a number in the bytes of a record: the writer puts two of
them in each byte, with a zero in front of an odd number of digits.
-/

namespace TellyDB.Database.Codec

open Resp Utils Lib.Positional Lib.ByteSource File Read

/-- One digit after the other in pairs. -/
def pairs : List (Fin 16) → Bytes
  | high :: low :: rest => UInt8.ofNat (16 * high.val + low.val) :: pairs rest
  | _ => []

/-- An even number of digits. -/
def padded (digits : List (Fin 16)) : List (Fin 16) :=
  if digits.length % 2 = 0 then digits else 0 :: digits

theorem length_padded (digits : List (Fin 16)) :
    (padded digits).length = 2 * ((digits.length + 1) / 2) := by
  rw [padded]
  split
  · omega
  · rw [List.length_cons]
    omega

theorem length_pairs : ∀ digits : List (Fin 16), (pairs digits).length = digits.length / 2
  | [] => rfl
  | [_] => by simp [pairs]
  | _ :: _ :: rest => by
      rw [pairs, List.length_cons, length_pairs rest, List.length_cons, List.length_cons]
      omega

theorem getElem?_pairs : ∀ (digits : List (Fin 16)) (index : Nat) (high low : Fin 16),
    digits[2 * index]? = some high → digits[2 * index + 1]? = some low →
      (pairs digits)[index]? = some (UInt8.ofNat (16 * high.val + low.val))
  | [], _, _, _ => fun isHigh => by cases isHigh
  | [_], index, _, _ => fun _ isLow => by
      rw [List.getElem?_cons_succ] at isLow
      cases isLow
  | first :: second :: rest, 0, high, low => fun isHigh isLow => by
      cases isHigh
      cases isLow
      rfl
  | _ :: _ :: rest, index + 1, high, low => fun isHigh isLow => by
      rw [show 2 * (index + 1) = 2 * index + 1 + 1 by omega, List.getElem?_cons_succ,
        List.getElem?_cons_succ] at isHigh
      rw [show 2 * (index + 1) + 1 = 2 * index + 1 + 1 + 1 by omega, List.getElem?_cons_succ,
        List.getElem?_cons_succ] at isLow
      rw [pairs, List.getElem?_cons_succ]
      exact getElem?_pairs rest index high low isHigh isLow

/-- The bytes of an even number of digits have their value. -/
theorem ofBigEndian_pairs : ∀ digits : List (Fin 16), digits.length % 2 = 0 →
    ofBigEndian 256 ((pairs digits).map UInt8.toNat) = ofBigEndian 16 (digits.map Fin.val)
  | [], _ => rfl
  | [_], odd => by cases odd
  | high :: low :: rest, even => by
      have restEven : rest.length % 2 = 0 := by
        rw [List.length_cons, List.length_cons] at even
        omega
      have length : rest.length = 2 * (rest.length / 2) := by omega
      have pair : (UInt8.ofNat (16 * high.val + low.val)).toNat = 16 * high.val + low.val :=
        UInt8.toNat_ofNat_of_lt' (by
          have highDigit := high.isLt
          have lowDigit := low.isLt
          show _ < 256
          omega)
      rw [pairs, List.map_cons, ofBigEndian_cons, ofBigEndian_pairs rest restEven, pair,
        List.map_cons, List.map_cons, ofBigEndian_cons, ofBigEndian_cons, List.length_cons,
        List.length_map, List.length_map, length_pairs]
      conv_rhs => rw [length]
      rw [Nat.pow_succ, Nat.pow_mul]
      ring

theorem ofBigEndian_padded (digits : List (Fin 16)) :
    ofBigEndian 16 ((padded digits).map Fin.val) = ofBigEndian 16 (digits.map Fin.val) := by
  rw [padded]
  split
  · rfl
  · rw [List.map_cons, ofBigEndian_cons]
    show 0 * _ + _ = _
    rw [Nat.zero_mul, Nat.zero_add]

/-! ## What the writer puts into the bytes -/

theorem mapM_range {α : Type} {produce : Nat → Option α} {results : List α}
    (each : ∀ index < results.length, produce index = results[index]?) :
    (List.range results.length).mapM produce = some results := by
  have general : ∀ (rest : List α) (start : Nat),
      (∀ index < rest.length, produce (start + index) = rest[index]?) →
      (List.range' start rest.length).mapM produce = some rest := by
    intro rest
    induction rest with
    | nil => exact fun _ _ => rfl
    | cons result rest inductionHypothesis =>
        intro start agree
        have first := agree 0 (Nat.succ_pos _)
        have later := inductionHypothesis (start + 1) fun index inside => by
          rw [show start + 1 + index = start + (index + 1) by omega,
            agree (index + 1) (Nat.succ_lt_succ inside)]
          rfl
        rw [List.length_cons, List.range'_succ, List.mapM_cons, later, show produce start = _ from
          first]
        rfl
  rw [List.range_eq_range']
  exact general results 0 fun index inside => by rw [Nat.zero_add, each index inside]

/-- The characters of a text of digits behind its sign. -/
theorem characterAt_text (negative : Bool) (digits : List (Fin 16)) (index : Nat) :
    characterAt (signText negative ++ digits.map hexCharacter ++ [0])
        (index + negative.toNat : Nat) =
      (digits.map hexCharacter ++ [0])[index]? := by
  have notNegative : ¬((index + negative.toNat : Nat) : Int) < 0 := by omega
  rw [characterAt, if_neg notNegative, Int.toNat_natCast, List.append_assoc,
    List.getElem?_append_right (by cases negative <;> simp [signText])]
  congr 1
  cases negative <;> simp [signText]

theorem characterAt_digit {digits : List (Fin 16)} {index : Nat} {digit : Fin 16}
    (negative : Bool) (held : digits[index]? = some digit) :
    characterAt (signText negative ++ digits.map hexCharacter ++ [0])
      (index + negative.toNat : Nat) = some (hexCharacter digit) := by
  have inside : index < digits.length := (List.getElem?_eq_some_iff.mp held).1
  rw [characterAt_text, List.getElem?_append_left (by rw [List.length_map]; exact inside),
    List.getElem?_map, held]
  rfl

theorem strtol_digits (high low : Fin 16) :
    strtol (hexCharacter high) (hexCharacter low) = UInt8.ofNat (16 * high.val + low.val) := by
  rw [strtol, hexValue_hexCharacter, hexValue_hexCharacter]

/-- The writer packs the digits. -/
theorem generateBytes_eq {digits : List (Fin 16)} (nonempty : digits ≠ [])
    (short : digits.length ≤ 256) (negative : Bool) :
    generateBytes (signText negative ++ digits.map hexCharacter ++ [0]) negative
        ((digits.length + 1) / 2) = some (pairs (padded digits)) := by
  have positive : 1 ≤ digits.length := List.length_pos_iff.mpr nonempty
  -- The character behind an odd number of digits is the NUL.
  have last : ∃ character,
      characterAt (signText negative ++ digits.map hexCharacter ++ [0])
          (((digits.length + 1) / 2 * 2 : Nat) - (!negative).toNat) = some character ∧
        (character != 0) = decide (digits.length % 2 = 0) := by
    have index_eq : (((digits.length + 1) / 2 * 2 : Nat) : Int) - (!negative).toNat =
        (((digits.length + 1) / 2 * 2 - 1) + negative.toNat : Nat) := by
      cases negative <;> simp <;> omega
    rw [index_eq]
    by_cases even : digits.length % 2 = 0
    · have inside : (digits.length + 1) / 2 * 2 - 1 < digits.length := by omega
      refine ⟨_, characterAt_digit negative (List.getElem?_eq_getElem inside), ?_⟩
      rw [decide_eq_true even, bne_iff_ne]
      exact hexCharacter_ne_zero _
    · refine ⟨0, ?_, ?_⟩
      · rw [characterAt_text, List.getElem?_append_right (by rw [List.length_map]; omega),
          List.length_map, show (digits.length + 1) / 2 * 2 - 1 - digits.length = 0 by omega]
        rfl
      · rw [decide_eq_false even]
        rfl
  rcases last with ⟨character, found, isEven⟩
  have count : (digits.length + 1) / 2 = (pairs (padded digits)).length := by
    rw [length_pairs, length_padded]
    omega
  rw [generateBytes, found]
  simp only [Option.bind_eq_bind, Option.bind_some, isEven]
  rw [count]
  apply mapM_range
  intro index inside
  rw [← count] at inside
  have sign : negative.toNat ≤ 1 := by cases negative <;> decide
  by_cases even : digits.length % 2 = 0
  · have high := List.getElem?_eq_getElem (l := digits) (i := 2 * index) (by omega)
    have low := List.getElem?_eq_getElem (l := digits) (i := 2 * index + 1) (by omega)
    rw [show padded digits = digits from if_pos even, getElem?_pairs _ _ _ _ high low,
      generateByte, decide_eq_true even, if_neg (by simp)]
    have wrap : (index * 2 + negative.toNat) % UInt8.size = 2 * index + negative.toNat := by
      rw [Nat.mod_eq_of_lt (by show _ < 256; omega)]
      omega
    have next : ((2 * index + negative.toNat : Nat) : Int) + 1 =
        (2 * index + 1 + negative.toNat : Nat) := by omega
    simp only [if_true, wrap, next, characterAt_digit negative high,
      characterAt_digit negative low, Option.bind_eq_bind, Option.bind_some, strtol_digits]
  · have padded_eq : padded digits = 0 :: digits := if_neg even
    rw [padded_eq, generateByte, decide_eq_false even]
    by_cases front : index = 0
    · subst front
      have first := List.getElem?_eq_getElem (l := digits) (i := 0) (by omega)
      have character := characterAt_digit negative first
      rw [Nat.zero_add] at character
      rw [if_pos ⟨rfl, rfl⟩, character, getElem?_pairs _ 0 0 _ rfl
        (by rw [List.getElem?_cons_succ]; exact first)]
      simp only [Option.bind_eq_bind, Option.bind_some]
      rw [show (0x30 : UInt8) = hexCharacter 0 from rfl, strtol_digits]
    · obtain ⟨before, rfl⟩ : ∃ before, index = before + 1 := ⟨index - 1, by omega⟩
      have high := List.getElem?_eq_getElem (l := digits) (i := 2 * before + 1) (by omega)
      have low := List.getElem?_eq_getElem (l := digits) (i := 2 * before + 2) (by omega)
      rw [if_neg (fun both => front both.1), getElem?_pairs _ (before + 1) _ _
        (by rw [show 2 * (before + 1) = 2 * before + 1 + 1 by omega, List.getElem?_cons_succ]
            exact high)
        (by rw [show 2 * (before + 1) + 1 = 2 * before + 2 + 1 by omega, List.getElem?_cons_succ]
            exact low)]
      have wrap : ((before + 1) * 2 - 1 + negative.toNat) % UInt8.size =
          2 * before + 1 + negative.toNat := by
        rw [Nat.mod_eq_of_lt (by show _ < 256; omega)]
        omega
      have next : ((2 * before + 1 + negative.toNat : Nat) : Int) + 1 =
          (2 * before + 2 + negative.toNat : Nat) := by omega
      simp only [Bool.false_eq_true, if_false, wrap, next, characterAt_digit negative high,
        characterAt_digit negative low, Option.bind_eq_bind, Option.bind_some, strtol_digits]

/-- The sign and the byte count that the specifier holds. -/
theorem specifier_fields : ∀ (byteCount : Fin 128) (negative : Bool),
    ((specifier (byteCount.val + 1) negative &&& 0x7f).toNat = byteCount.val) ∧
      ((specifier (byteCount.val + 1) negative &&& 0x80 != 0) = negative) := by
  decide

end TellyDB.Database.Codec
