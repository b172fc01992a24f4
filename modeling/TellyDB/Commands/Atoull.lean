import TellyDB.Commands.Numerals

/-!
Owns `atoull_s` byte by byte: what it reads of its string, what it computes in words of 64 bits,
and which strings it accepts with which value.
-/

namespace TellyDB.Commands

open Resp

/-! ## Bytes and words -/

/-- A `uint64_t` that holds the number, which must not wrap. -/
def checkedWord (number : Nat) : Option Nat := if number ≤ uint64Max then some number else none

/-- The loop of `atoull_s` over leading zeros: `value` is its place in the string, of which `len`
bytes are left. -/
def skipZeros (string : Bytes) : (value len : Nat) → Option (Nat × Nat)
  | value, 0 => some (value, 0)
  | value, len + 1 => do
      let byte ← string[value]?
      if byte = 0x30 then skipZeros string (value + 1) len else some (value, len + 1)

/-- The loop of `atoull_s` over digits. -/
def atoullReadDigits (string : Bytes) : (value len result : Nat) → Option (Nat × Errno)
  | _, 0, result => some (result, .zero)
  | value, len + 1, result => do
      let byte ← string[value]?
      if isDigit byte then
        let digit := digitValue byte
        if result > uint64Max / 10 ∨ (result = uint64Max / 10 ∧ digit > uint64Max % 10) then
          some (uint64Max, .erange)
        else do
          let product ← checkedWord (result * 10)
          let result ← checkedWord (product + digit)
          atoullReadDigits string (value + 1) len result
      else some (uint64Max, .einval)

/-- `atoull_s` behind the sign. -/
def atoullReadUnsigned (string : Bytes) (value len : Nat) : Option (Nat × Errno) := do
  let (value, len) ← skipZeros string value len
  if len = 0 then some (0, .zero)
  else if len > 20 then some (uint64Max, .erange)
  else atoullReadDigits string value len 0

/-- `atoull_s`; `none` where it reads a byte outside of the string or a word wraps. -/
def atoullRead (string : Bytes) : Option (Nat × Errno) := do
  let first ← string[0]?
  if first = 0x2d then some (uint64Max, .einval)
  else if first = 0x2b then
    if string.length - 1 = 0 then some (uint64Max, .einval)
    else atoullReadUnsigned string 1 (string.length - 1)
  else atoullReadUnsigned string 0 string.length

section Reading

variable {before rest : Bytes} {result : Nat}

theorem getElem?_behind (byte : UInt8) : (before ++ byte :: rest)[before.length]? = some byte := by
  rw [List.getElem?_append_right (Nat.le_refl _), Nat.sub_self]
  rfl

theorem skipZeros_eq : skipZeros (before ++ rest) before.length rest.length =
    some ((before ++ rest.takeWhile (· == 0x30)).length,
      (rest.dropWhile (· == 0x30)).length) := by
  induction rest generalizing before with
  | nil => simp [skipZeros]
  | cons byte rest inductionHypothesis =>
      have next := @inductionHypothesis (before ++ [byte])
      rw [List.append_assoc, List.singleton_append, List.length_append,
        List.length_singleton] at next
      rw [List.length_cons, skipZeros, getElem?_behind]
      by_cases zero : byte = 0x30
      · simp [zero] at next ⊢
        exact next
      · simp [zero]

theorem atoullReadDigits_eq (bounded : result ≤ uint64Max) :
    atoullReadDigits (before ++ rest) before.length rest.length result =
      some (atoullLoop rest result) := by
  induction rest generalizing before result with
  | nil => rfl
  | cons byte rest inductionHypothesis =>
      rw [List.length_cons, atoullReadDigits, getElem?_behind, atoullLoop]
      dsimp only [Option.bind_eq_bind, Option.bind_some]
      split
      · next digit =>
          have small := digitValue_lt digit
          split
          · rfl
          · next fits =>
              have bound : result * 10 + digitValue byte ≤ uint64Max := by
                rw [uint64Max] at fits ⊢
                omega
              have next := @inductionHypothesis (before ++ [byte]) _ bound
              rw [List.append_assoc, List.singleton_append, List.length_append,
                List.length_singleton] at next
              have product : result * 10 ≤ uint64Max := by omega
              rw [checkedWord, if_pos product, Option.bind_some, checkedWord, if_pos bound,
                Option.bind_some, next]
      · rfl

theorem atoullReadUnsigned_eq :
    atoullReadUnsigned (before ++ rest) before.length rest.length = some (atoullDigits rest) := by
  rw [atoullReadUnsigned, skipZeros_eq, atoullDigits]
  dsimp only [Option.bind_eq_bind, Option.bind_some]
  have whole : before ++ rest =
      (before ++ rest.takeWhile (· == 0x30)) ++ rest.dropWhile (· == 0x30) := by
    rw [List.append_assoc, List.takeWhile_append_dropWhile]
  split
  · rfl
  · split
    · rfl
    · rw [whole]
      exact atoullReadDigits_eq (Nat.zero_le _)

/-- `atoull_s` stays in its string, and no word of it wraps. -/
theorem atoullRead_eq {string : Bytes} (nonempty : string ≠ []) :
    atoullRead string = some (atoullS string) := by
  obtain ⟨first, others, rfl⟩ := List.exists_cons_of_ne_nil nonempty
  have read : (first :: others)[0]? = some first := rfl
  rw [atoullRead, read, Option.bind_eq_bind, Option.bind_some, atoullS.eq_def]
  by_cases minus : first = 0x2d
  · subst minus
    rfl
  · rw [if_neg minus]
    by_cases plus : first = 0x2b
    · subst plus
      rw [if_pos rfl, List.length_cons, Nat.add_sub_cancel]
      show _ = some (if others.length = 0 then _ else _)
      split
      · rfl
      · exact @atoullReadUnsigned_eq [0x2b] others
    · rw [if_neg plus]
      split
      · next same => exact absurd (List.cons.inj same).1 minus
      · next same => exact absurd (List.cons.inj same).1 plus
      · exact @atoullReadUnsigned_eq [] (first :: others)

end Reading

/-! ## What is accepted -/

/-- An optional plus and at least one digit, with the number they denote. -/
inductive DenotesUnsigned : Bytes → Nat → Prop
  | digits {digits : Bytes} (nonempty : digits ≠ []) (all : AllDigits digits) :
      DenotesUnsigned digits (decimalValue digits)
  | plus {digits : Bytes} (nonempty : digits ≠ []) (all : AllDigits digits) :
      DenotesUnsigned (0x2b :: digits) (decimalValue digits)

section Acceptance

variable {string rest : Bytes} {value result : Nat}

theorem atoullS_denoted (denotes : DenotesUnsigned string value) : atoullS string =
    if value ≤ uint64Max then (value, .zero) else (uint64Max, .erange) := by
  cases denotes with
  | digits nonempty all => exact atoullS_digits nonempty all
  | plus nonempty all => exact atoullS_plus nonempty all

/-- The loop goes through to the end over digits only, and returns the largest word else. -/
theorem atoullLoop_cases (rest : Bytes) (result : Nat) :
    ((atoullLoop rest result).2 = .zero ∧ AllDigits rest) ∨
      ((atoullLoop rest result).2 ≠ .zero ∧ (atoullLoop rest result).1 = uint64Max) := by
  induction rest generalizing result with
  | nil => exact .inl ⟨rfl, fun _ member => absurd member List.not_mem_nil⟩
  | cons byte rest inductionHypothesis =>
      rw [atoullLoop]
      split
      · next digit =>
          dsimp only
          split
          · exact .inr ⟨by decide, rfl⟩
          · refine (inductionHypothesis _).imp_left fun accepted => ⟨accepted.1, ?_⟩
            exact List.forall_mem_cons.mpr ⟨digit, accepted.2⟩
      · exact .inr ⟨by decide, rfl⟩

theorem atoullDigits_cases (rest : Bytes) :
    ((atoullDigits rest).2 = .zero ∧ AllDigits rest) ∨
      ((atoullDigits rest).2 ≠ .zero ∧ (atoullDigits rest).1 = uint64Max) := by
  have zeros : AllDigits (rest.takeWhile (· == 0x30)) := by
    intro byte member
    have zero : byte = 0x30 := by simpa using List.mem_takeWhile_imp member
    rw [zero]
    rfl
  have whole : AllDigits (rest.dropWhile (· == 0x30)) → AllDigits rest := by
    intro significant byte member
    rw [← List.takeWhile_append_dropWhile (p := (· == 0x30)) (l := rest)] at member
    exact (List.mem_append.mp member).elim (zeros byte) (significant byte)
  rw [atoullDigits]
  split
  · next none_ =>
      refine .inl ⟨rfl, whole ?_⟩
      rw [List.eq_nil_of_length_eq_zero none_]
      exact fun _ member => absurd member List.not_mem_nil
  · split
    · exact .inr ⟨by decide, rfl⟩
    · exact (atoullLoop_cases _ 0).imp_left fun accepted => ⟨accepted.1, whole accepted.2⟩

/-- Without an error the string denotes a number, and with one the largest word is returned. -/
theorem atoullS_cases (nonempty : string ≠ []) :
    ((atoullS string).2 = .zero ∧ ∃ value, DenotesUnsigned string value) ∨
      ((atoullS string).2 ≠ .zero ∧ (atoullS string).1 = uint64Max) := by
  rw [atoullS.eq_def]
  split
  · exact .inr ⟨by decide, rfl⟩
  · next value =>
      split
      · exact .inr ⟨by decide, rfl⟩
      · next some_ =>
          refine (atoullDigits_cases value).imp_left fun accepted =>
            ⟨accepted.1, decimalValue value, ?_⟩
          exact .plus (fun none_ => some_ (none_ ▸ rfl)) accepted.2
  · exact (atoullDigits_cases string).imp_left fun accepted =>
      ⟨accepted.1, _, .digits nonempty accepted.2⟩

/-- What `atoull_s` returns for a string. -/
structure AtoullExact (string : Bytes) (value : Nat) (errno : Errno) : Prop where
  accepts : errno = .zero ↔ ∃ number, DenotesUnsigned string number ∧ number ≤ uint64Max
  returns : ∀ number, DenotesUnsigned string number → number ≤ uint64Max → value = number
  large : AllDigits string → uint64Max < decimalValue string →
    value = uint64Max ∧ errno = .erange
  refuses : errno ≠ .zero → value = uint64Max

/-- `atoull_s` accepts the numbers of 64 bits and returns them, without a word that wraps and
without a byte outside of the string. -/
theorem atoullRead_exact (nonempty : string ≠ []) : ∃ value errno,
    atoullRead string = some (value, errno) ∧ AtoullExact string value errno := by
  refine ⟨(atoullS string).1, (atoullS string).2, atoullRead_eq nonempty, ?_, ?_, ?_, ?_⟩
  · constructor
    · intro accepted
      rcases atoullS_cases nonempty with ⟨-, value, denotes⟩ | ⟨refused, -⟩
      · refine ⟨value, denotes, ?_⟩
        by_contra large
        rw [atoullS_denoted denotes, if_neg large] at accepted
        cases accepted
      · exact absurd accepted refused
    · rintro ⟨value, denotes, small⟩
      rw [atoullS_denoted denotes, if_pos small]
  · intro value denotes small
    rw [atoullS_denoted denotes, if_pos small]
  · intro all large
    rw [atoullS_digits nonempty all, if_neg (Nat.not_le.mpr large)]
    exact ⟨rfl, rfl⟩
  · intro refused
    rcases atoullS_cases nonempty with ⟨accepted, -⟩ | ⟨-, largest⟩
    · exact absurd accepted refused
    · exact largest

/-- The largest number of 64 bits. -/
theorem atoullRead_exact_largest : text "18446744073709551615" ≠ [] ∧
    ∃ value errno, atoullRead (text "18446744073709551615") = some (value, errno) ∧
      AtoullExact (text "18446744073709551615") value errno :=
  ⟨by decide, atoullRead_exact (by decide)⟩

end Acceptance

end TellyDB.Commands
