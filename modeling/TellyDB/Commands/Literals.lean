import TellyDB.Commands.Numerals

/-!
Owns what the recognizers of numbers in `utils/number.c` accept: `try_parse_integer`, which looks
at the bytes and compares the length at last, and `try_parse_double`, which goes by the length.

`none` is a read behind the memory. A length wraps.
-/

namespace TellyDB.Commands

open Resp

/-! ## The recognizers -/

/-- The loop of `try_parse_integer`. -/
def skipDigits : Bytes → UInt64 → Option (Bytes × UInt64)
  | [], _ => none
  | byte :: rest, len =>
      if isDigit byte then skipDigits rest (len - 1) else some (byte :: rest, len)

/-- `try_parse_integer` from its loop on. A pointer is compared by what lies behind it. -/
def integerEnd (memory v : Bytes) (len : UInt64) : Option Bool := do
  let scanned ← skipDigits v len
  some (scanned.1.length != memory.length && scanned.2 == 0)

/-- `try_parse_integer`. -/
def tryParseIntegerWord (memory : Bytes) (len : UInt64) : Option Bool := do
  let first ← memory.head?
  if first = 0x2d then
    let v := memory.tail
    let len := len - 1
    if len = 0 then some false
    else
      let second ← v.head?
      if second = 0x30 then some false else integerEnd memory v len
  else integerEnd memory memory len

/-- The loop of `try_parse_double`. -/
def doubleLoop (v : Bytes) (len : UInt64) (point : Bool) : Option Bool :=
  if len = 0 then some point
  else
    match v with
    | [] => none
    | c :: rest =>
        if c = 0x2e then if point then some false else doubleLoop rest (len - 1) true
        else if isDigit c then doubleLoop rest (len - 1) point else some false

/-- `try_parse_double`. -/
def tryParseDoubleWord (memory : Bytes) (len : UInt64) : Option Bool := do
  let first ← memory.head?
  if first = 0x2d then doubleLoop memory.tail (len - 1) false else doubleLoop memory len false

/-- SET ends the argument with a NUL for GMP. -/
def nulTerminated (memory : Bytes) (len : UInt64) : Bytes := memory.set len.toNat 0

/-! ## Literals -/

/-- Digits with exactly one point and at least one digit, behind a minus or without one. -/
inductive IsDoubleLiteral : Bytes → Prop where
  | digits {whole fraction : Bytes} (front : AllDigits whole) (back : AllDigits fraction)
      (nonempty : whole ++ fraction ≠ []) : IsDoubleLiteral (whole ++ 0x2e :: fraction)
  | minus {whole fraction : Bytes} (front : AllDigits whole) (back : AllDigits fraction)
      (nonempty : whole ++ fraction ≠ []) : IsDoubleLiteral (0x2d :: (whole ++ 0x2e :: fraction))

/-- At least one digit and at most one point. -/
def isUnsignedMantissa (bytes : Bytes) : Bool :=
  bytes.any isDigit && bytes.all (fun byte => isDigit byte || byte == 0x2e) &&
    bytes.count 0x2e ≤ 1

/-- A mantissa behind a minus or without one. -/
def isMantissa (bytes : Bytes) : Bool :=
  match bytes with
  | 0x2d :: rest => isUnsignedMantissa rest
  | _ => isUnsignedMantissa bytes

/-- Whether GMP reads a C string in base ten. -/
structure GmpParsers where
  mpzInitSetStr : Bytes → Bool
  mpfSetStr : Bytes → Bool

/-- What GMP promises for texts without white space and without an exponent. -/
structure GmpParsers.Documented (gmp : GmpParsers) : Prop where
  integer : ∀ string, isNumeral string = true → gmp.mpzInitSetStr string = true
  mantissa : ∀ string, isMantissa string = true → gmp.mpfSetStr string = true

/-- GMP on texts without white space and without an exponent. -/
def GmpParsers.plain : GmpParsers := ⟨isNumeral, isMantissa⟩

theorem GmpParsers.plain_documented : GmpParsers.plain.Documented where
  integer := fun _ numeral => numeral
  mantissa := fun _ mantissa => mantissa

/-- Behind the argument lies a byte that is no part of a number. -/
def Delimited (memory : Bytes) (len : UInt64) : Prop :=
  ∃ behind, memory[len.toNat]? = some behind ∧ isDigit behind = false ∧ behind ≠ 0x2d ∧
    behind ≠ 0x2e

/-- The recognizers accept the literals, each its own, and GMP reads what they accept. -/
structure Recognizes (gmp : GmpParsers) (memory : Bytes) (len : UInt64) : Prop where
  inside : (tryParseIntegerWord memory len).isSome ∧ (tryParseDoubleWord memory len).isSome
  integer : tryParseIntegerWord memory len = some true ↔ IsInteger (memory.take len.toNat)
  double : tryParseDoubleWord memory len = some true ↔ IsDoubleLiteral (memory.take len.toNat)
  apart : ¬(tryParseIntegerWord memory len = some true ∧
    tryParseDoubleWord memory len = some true)
  readsInteger : tryParseIntegerWord memory len = some true →
    gmp.mpzInitSetStr (cString (nulTerminated memory len)) = true
  readsDouble : tryParseDoubleWord memory len = some true →
    gmp.mpfSetStr (cString (nulTerminated memory len)) = true

/-! ## What the recognizers read -/

/-- The length of what is left behind a byte. -/
theorem length_rest {byte : UInt8} {rest : Bytes} {len : UInt64}
    (same : (byte :: rest).length = len.toNat) : rest.length = (len - 1).toNat := by
  have some_ : 1 ≤ len := UInt64.le_iff_toNat_le.mpr (same ▸ Nat.succ_pos rest.length)
  rw [UInt64.toNat_sub_of_le _ _ some_, ← same]
  rfl

/-- The digits end at a byte that is no digit, and the length is less by what they take. -/
theorem skipDigits_eq {v : Bytes} (len : UInt64) (stops : ∃ byte ∈ v, isDigit byte = false) :
    skipDigits v len =
      some (v.dropWhile isDigit, len - UInt64.ofNat (v.takeWhile isDigit).length) := by
  induction v generalizing len with
  | nil =>
      obtain ⟨byte, member, -⟩ := stops
      exact absurd member List.not_mem_nil
  | cons byte rest inductionHypothesis =>
      rw [skipDigits, List.dropWhile_cons, List.takeWhile_cons]
      cases digit : isDigit byte with
      | false => simp
      | true =>
          have later : ∃ other ∈ rest, isDigit other = false := by
            obtain ⟨other, member, none_⟩ := stops
            cases List.mem_cons.mp member with
            | inl same =>
                rw [same, digit] at none_
                cases none_
            | inr member => exact ⟨other, member, none_⟩
          have less : len - 1 - UInt64.ofNat (rest.takeWhile isDigit).length =
              len - UInt64.ofNat ((rest.takeWhile isDigit).length + 1) := by
            rw [UInt64.ofNat_add]
            grind
          rw [if_pos rfl, if_pos rfl, if_pos rfl, inductionHypothesis (len - 1) later,
            List.length_cons, less]

/-- The pointer of a loop moves where a digit is first. -/
theorem moved_iff (memory : Bytes) :
    ((memory.dropWhile isDigit).length != memory.length) =
      ((memory.takeWhile isDigit).length != 0) := by
  have split := congrArg List.length (List.takeWhile_append_dropWhile (p := isDigit) (l := memory))
  rw [List.length_append] at split
  rw [Bool.eq_iff_iff, bne_iff_ne, bne_iff_ne]
  omega

theorem tryParseInteger_unsigned {argument : Argument}
    (unsigned : argument.memory.head? ≠ some 0x2d) :
    tryParseInteger argument = ((argument.memory.takeWhile isDigit).length != 0 &&
      (argument.memory.takeWhile isDigit).length == argument.bytes.length) := by
  rw [tryParseInteger]
  split
  · next rest minus =>
      rw [minus] at unsigned
      exact absurd rfl unsigned
  · rfl

section Ends

variable {behind : UInt8} (stop : isDigit behind = false) (following : Bytes)

include stop

/-- The digits do not go on behind the argument. -/
theorem length_takeWhile_le (bytes : Bytes) :
    ((bytes ++ behind :: following).takeWhile isDigit).length ≤ bytes.length := by
  induction bytes with
  | nil => simp [stop]
  | cons byte rest inductionHypothesis =>
      rw [List.cons_append, List.takeWhile_cons]
      split
      · exact Nat.succ_le_succ inductionHypothesis
      · exact Nat.zero_le _

/-- Where the length is that of what is left of the argument, the loop does not make it wrap. -/
theorem integerEnd_eq (memory : Bytes) {bytes : Bytes} {len : UInt64}
    (same : bytes.length = len.toNat) :
    integerEnd memory (bytes ++ behind :: following) len =
      some (((bytes ++ behind :: following).dropWhile isDigit).length != memory.length &&
        ((bytes ++ behind :: following).takeWhile isDigit).length == bytes.length) := by
  have stops : ∃ byte ∈ bytes ++ behind :: following, isDigit byte = false :=
    ⟨behind, by simp, stop⟩
  have bounded := length_takeWhile_le stop following bytes
  rw [integerEnd, skipDigits_eq len stops]
  generalize ((bytes ++ behind :: following).takeWhile isDigit).length = count at bounded ⊢
  have taken : (len - UInt64.ofNat count == 0) = (count == bytes.length) := by
    have fits := len.toNat_lt
    have small : (UInt64.ofNat count).toNat = count :=
      UInt64.toNat_ofNat_of_lt' (Nat.lt_of_le_of_lt (same ▸ bounded) fits)
    rw [Bool.eq_iff_iff, beq_iff_eq, beq_iff_eq, UInt64.sub_eq_iff_eq_add, UInt64.zero_add,
      ← UInt64.toNat_inj, small, same]
    exact eq_comm
  rw [Option.bind_eq_bind, Option.bind_some, taken]

/-- Without a minus the pointer moves where a digit is first. -/
theorem tryParseIntegerWord_unsigned {bytes : Bytes} {len : UInt64}
    (same : bytes.length = len.toNat)
    (unsigned : (bytes ++ behind :: following).head? ≠ some 0x2d) :
    tryParseIntegerWord (bytes ++ behind :: following) len =
      some (tryParseInteger ⟨bytes, behind :: following⟩) := by
  have ended := integerEnd_eq stop following (bytes ++ behind :: following) same
  have parsed : tryParseInteger ⟨bytes, behind :: following⟩ = _ :=
    tryParseInteger_unsigned unsigned
  rw [parsed, tryParseIntegerWord, Argument.memory]
  dsimp only
  generalize memory : bytes ++ behind :: following = all at unsigned ended ⊢
  cases all with
  | nil => exact absurd memory (by simp)
  | cons first others =>
      have other : first ≠ 0x2d := fun minus => unsigned (congrArg some minus)
      rw [List.head?_cons, Option.bind_eq_bind, Option.bind_some, if_neg other, ended, moved_iff]

/-- Behind a minus the length is that of the rest. -/
theorem tryParseIntegerWord_minus {bytes : Bytes} {len : UInt64}
    (same : (0x2d :: bytes).length = len.toNat) :
    tryParseIntegerWord (0x2d :: bytes ++ behind :: following) len =
      some (tryParseInteger ⟨0x2d :: bytes, behind :: following⟩) := by
  have length := length_rest same
  have ended := integerEnd_eq stop following (0x2d :: bytes ++ behind :: following) length
  have moved : ((bytes ++ behind :: following).dropWhile isDigit).length ≠
      (0x2d :: bytes ++ behind :: following).length := by
    have suffix := (List.dropWhile_suffix isDigit (l := bytes ++ behind :: following)).length_le
    rw [List.cons_append, List.length_cons]
    omega
  rw [bne_iff_ne.mpr moved, Bool.true_and] at ended
  have empty : len - 1 = 0 ↔ bytes = [] := by
    rw [← UInt64.toNat_inj, ← length]
    exact List.length_eq_zero_iff
  rw [tryParseIntegerWord, tryParseInteger]
  simp only [List.cons_append, List.head?_cons, Option.bind_eq_bind, Option.bind_some, if_pos,
    List.tail_cons, empty, Argument.memory] at ended ⊢
  cases bytes with
  | nil => simp
  | cons second rest =>
      rw [if_neg (List.cons_ne_nil second rest), ended]
      by_cases zero : second = 0x30
      · simp [zero]
      · simp [zero]

/-- `try_parse_integer` reads no more than the argument and the byte behind it. -/
theorem tryParseIntegerWord_eq {bytes : Bytes} {len : UInt64} (same : bytes.length = len.toNat)
    (unsigned : behind ≠ 0x2d) :
    tryParseIntegerWord (bytes ++ behind :: following) len =
      some (tryParseInteger ⟨bytes, behind :: following⟩) := by
  cases bytes with
  | nil => exact tryParseIntegerWord_unsigned stop following same (mt Option.some.inj unsigned)
  | cons byte rest =>
      by_cases minus : byte = 0x2d
      · subst minus
        exact tryParseIntegerWord_minus stop following same
      · exact tryParseIntegerWord_unsigned stop following same (mt Option.some.inj minus)

end Ends

/-- The length leads the loop to the end of the argument. -/
theorem doubleLoop_eq {bytes : Bytes} {len : UInt64} (same : bytes.length = len.toNat)
    (following : Bytes) (point : Bool) :
    doubleLoop (bytes ++ following) len point = some (parseDoubleLoop bytes point) := by
  induction bytes generalizing len point with
  | nil =>
      have zero : len = 0 := UInt64.toNat_inj.mp same.symm
      rw [doubleLoop.eq_def, if_pos zero, parseDoubleLoop]
  | cons c rest inductionHypothesis =>
      have some_ : len ≠ 0 := by
        rintro rfl
        cases same
      rw [List.cons_append, doubleLoop, if_neg some_, parseDoubleLoop,
        inductionHypothesis (length_rest same), inductionHypothesis (length_rest same)]
      split
      · split
        · rfl
        · rfl
      · split
        · rfl
        · rfl

/-- `try_parse_double` reads the argument, and of an empty one the byte behind it. -/
theorem tryParseDoubleWord_eq {behind : UInt8} (following : Bytes) {bytes : Bytes} {len : UInt64}
    (same : bytes.length = len.toNat) (unsigned : behind ≠ 0x2d) :
    tryParseDoubleWord (bytes ++ behind :: following) len =
      some (tryParseDouble ⟨bytes, behind :: following⟩) := by
  rw [tryParseDoubleWord, tryParseDouble]
  cases bytes with
  | nil =>
      rw [List.nil_append, List.head?_cons, Option.bind_eq_bind, Option.bind_some,
        if_neg unsigned]
      exact @doubleLoop_eq [] len same (behind :: following) false
  | cons byte rest =>
      rw [List.cons_append, List.head?_cons, Option.bind_eq_bind, Option.bind_some]
      split
      · next minus =>
          subst minus
          exact doubleLoop_eq (length_rest same) _ false
      · next other =>
          have whole := doubleLoop_eq same (behind :: following) false
          dsimp only
          split
          · next rest' minus => exact absurd (List.cons.inj minus).1 other
          · exact whole

/-! ## What is accepted -/

theorem allDigits_cons {byte : UInt8} {rest : Bytes} :
    AllDigits (byte :: rest) ↔ isDigit byte = true ∧ AllDigits rest := List.forall_mem_cons

theorem AllDigits.no_point {digits : Bytes} (all : AllDigits digits) : 0x2e ∉ digits := by
  intro point
  cases all 0x2e point

/-- Behind a point only digits follow. -/
theorem parseDoubleLoop_point (bytes : Bytes) :
    parseDoubleLoop bytes true = true ↔ AllDigits bytes := by
  induction bytes with
  | nil => simp [parseDoubleLoop, AllDigits]
  | cons byte rest inductionHypothesis =>
      rw [parseDoubleLoop, allDigits_cons, ← inductionHypothesis]
      split
      · next point =>
          subst point
          exact iff_of_false (by simp) fun digit => Bool.false_ne_true digit.1
      · simp

/-- Digits with exactly one point. -/
def PointedDigits (bytes : Bytes) : Prop :=
  ∃ whole fraction, AllDigits whole ∧ AllDigits fraction ∧ bytes = whole ++ 0x2e :: fraction

theorem pointedDigits_point {rest : Bytes} : PointedDigits (0x2e :: rest) ↔ AllDigits rest := by
  constructor
  · intro ⟨whole, fraction, front, back, same⟩
    cases whole with
    | nil => exact (List.cons.inj same).2 ▸ back
    | cons digit others =>
        rw [← (List.cons.inj same).1] at front
        cases front.head
  · exact fun all => ⟨[], rest, fun _ member => absurd member List.not_mem_nil, all, rfl⟩

theorem pointedDigits_other {byte : UInt8} {rest : Bytes} (other : byte ≠ 0x2e) :
    PointedDigits (byte :: rest) ↔ isDigit byte = true ∧ PointedDigits rest := by
  constructor
  · intro ⟨whole, fraction, front, back, same⟩
    cases whole with
    | nil => exact absurd (List.cons.inj same).1 other
    | cons digit others =>
        obtain ⟨first, rest⟩ := List.cons.inj same
        exact ⟨first ▸ front.head, others, fraction, front.tail, back, rest⟩
  · intro ⟨digit, whole, fraction, front, back, same⟩
    exact ⟨byte :: whole, fraction, allDigits_cons.mpr ⟨digit, front⟩, back,
      congrArg (List.cons byte) same⟩

theorem parseDoubleLoop_iff (bytes : Bytes) :
    parseDoubleLoop bytes false = true ↔ PointedDigits bytes := by
  induction bytes with
  | nil => simp [parseDoubleLoop, PointedDigits]
  | cons byte rest inductionHypothesis =>
      rw [parseDoubleLoop]
      split
      · next point =>
          subst point
          rw [if_neg Bool.false_ne_true, parseDoubleLoop_point, pointedDigits_point]
      · next other =>
          rw [pointedDigits_other other, ← inductionHypothesis]
          simp

/-- Of what has exactly one point only the point itself has no digit. -/
theorem pointedDigits_iff {bytes : Bytes} :
    PointedDigits bytes ↔ bytes = [0x2e] ∨ ∃ whole fraction, AllDigits whole ∧
      AllDigits fraction ∧ whole ++ fraction ≠ [] ∧ bytes = whole ++ 0x2e :: fraction := by
  constructor
  · intro ⟨whole, fraction, front, back, same⟩
    by_cases empty : whole ++ fraction = []
    · obtain ⟨rfl, rfl⟩ := List.append_eq_nil_iff.mp empty
      exact .inl same
    · exact .inr ⟨whole, fraction, front, back, empty, same⟩
  · intro either
    cases either with
    | inl same =>
        rw [same, pointedDigits_point]
        exact fun _ member => absurd member List.not_mem_nil
    | inr double =>
        obtain ⟨whole, fraction, front, back, -, same⟩ := double
        exact ⟨whole, fraction, front, back, same⟩

theorem PointedDigits.unsigned {bytes : Bytes} (pointed : PointedDigits bytes) :
    bytes.head? ≠ some 0x2d := by
  obtain ⟨whole, fraction, front, back, same⟩ := pointed
  rw [same]
  cases whole with
  | nil => exact mt Option.some.inj (by decide)
  | cons digit rest => exact front.head_ne_minus

theorem isDoubleLiteral_iff {bytes : Bytes} :
    IsDoubleLiteral bytes ∨ bytes = text "." ∨ bytes = text "-." ↔
      PointedDigits bytes ∨ ∃ rest, bytes = 0x2d :: rest ∧ PointedDigits rest := by
  have point : PointedDigits [0x2e] := pointedDigits_iff.mpr (.inl rfl)
  constructor
  · rintro (double | rfl | rfl)
    · cases double with
      | digits front back nonempty => exact .inl ⟨_, _, front, back, rfl⟩
      | minus front back nonempty => exact .inr ⟨_, rfl, _, _, front, back, rfl⟩
    · exact .inl point
    · exact .inr ⟨[0x2e], rfl, point⟩
  · rintro (pointed | ⟨rest, rfl, pointed⟩)
    · cases pointedDigits_iff.mp pointed with
      | inl same => exact .inr (.inl same)
      | inr double =>
          obtain ⟨whole, fraction, front, back, nonempty, rfl⟩ := double
          exact .inl (.digits front back nonempty)
    · cases pointedDigits_iff.mp pointed with
      | inl same => exact .inr (.inr (congrArg (List.cons 0x2d) same))
      | inr double =>
          obtain ⟨whole, fraction, front, back, nonempty, rfl⟩ := double
          exact .inl (.minus front back nonempty)

/-- `try_parse_double` asks for a point, and not for a digit. -/
theorem tryParseDouble_iff (argument : Argument) :
    tryParseDouble argument = true ↔ IsDoubleLiteral argument.bytes ∨
      argument.bytes = text "." ∨ argument.bytes = text "-." := by
  rw [tryParseDouble, isDoubleLiteral_iff]
  split
  · next rest minus =>
      rw [parseDoubleLoop_iff, minus]
      constructor
      · exact fun pointed => .inr ⟨rest, rfl, pointed⟩
      · intro either
        cases either with
        | inl pointed => exact absurd rfl pointed.unsigned
        | inr minus =>
            obtain ⟨rest, same, pointed⟩ := minus
            exact (List.cons.inj same).2 ▸ pointed
  · next other =>
      rw [parseDoubleLoop_iff]
      refine (or_iff_left ?_).symm
      intro minus
      obtain ⟨rest, same, -⟩ := minus
      exact other rest same

/-- A number in front of a NUL is all that GMP reads. -/
theorem cString_nulTerminated {memory : Bytes} {len : UInt64} (inside : len.toNat < memory.length)
    (clean : 0 ∉ memory.take len.toNat) :
    cString (nulTerminated memory len) = memory.take len.toNat := by
  rw [nulTerminated, List.set_eq_take_append_cons_drop, if_pos inside, cString_append clean]
  exact List.append_nil _

theorem IsInteger.clean {bytes : Bytes} (integer : IsInteger bytes) : 0 ∉ bytes := by
  cases integer with
  | digits nonempty all => exact all.clean
  | minus nonempty all leading =>
      rw [List.mem_cons, not_or]
      exact ⟨by decide, all.clean⟩

theorem IsDoubleLiteral.clean {bytes : Bytes} (double : IsDoubleLiteral bytes) : 0 ∉ bytes := by
  cases double with
  | digits front back nonempty => simp [front.clean, back.clean]
  | minus front back nonempty => simp [front.clean, back.clean]

/-- Exactly one point is at most one. -/
theorem isUnsignedMantissa_point {whole fraction : Bytes} (front : AllDigits whole)
    (back : AllDigits fraction) (nonempty : whole ++ fraction ≠ []) :
    isUnsignedMantissa (whole ++ 0x2e :: fraction) = true := by
  have digits : AllDigits (whole ++ fraction) := by
    intro byte member
    cases List.mem_append.mp member with
    | inl member => exact front byte member
    | inr member => exact back byte member
  have same : (whole ++ 0x2e :: fraction).Perm (0x2e :: (whole ++ fraction)) :=
    List.perm_middle
  have digit : ∃ byte ∈ whole ++ 0x2e :: fraction, isDigit byte = true := by
    obtain ⟨byte, member⟩ := List.exists_mem_of_ne_nil _ nonempty
    exact ⟨byte, same.mem_iff.mpr (List.mem_cons_of_mem _ member), digits byte member⟩
  have only : ∀ byte ∈ whole ++ 0x2e :: fraction, (isDigit byte || byte == 0x2e) = true := by
    intro byte member
    cases List.mem_cons.mp (same.mem_iff.mp member) with
    | inl point => rw [point]; rfl
    | inr member => rw [digits byte member, Bool.true_or]
  have once : (whole ++ 0x2e :: fraction).count 0x2e ≤ 1 := by
    rw [same.count_eq, List.count_cons_self, List.count_eq_zero.mpr digits.no_point]
  rw [isUnsignedMantissa, List.any_eq_true.mpr digit, List.all_eq_true.mpr only,
    decide_eq_true once]
  rfl

theorem IsDoubleLiteral.isMantissa {bytes : Bytes} (double : IsDoubleLiteral bytes) :
    isMantissa bytes = true := by
  cases double with
  | @digits whole fraction front back nonempty =>
      rw [Commands.isMantissa.eq_def]
      split
      · next rest minus =>
          have unsigned := PointedDigits.unsigned ⟨whole, fraction, front, back, rfl⟩
          rw [minus] at unsigned
          exact absurd rfl unsigned
      · exact isUnsignedMantissa_point front back nonempty
  | minus front back nonempty => exact isUnsignedMantissa_point front back nonempty

/-- No number lies in a point alone. -/
theorem not_isDoubleLiteral {bytes : Bytes} (point : bytes = text "." ∨ bytes = text "-.") :
    ¬IsDoubleLiteral bytes := by
  intro double
  have mantissa := double.isMantissa
  cases point with
  | inl same =>
      rw [same] at mantissa
      exact absurd mantissa (by decide)
  | inr same =>
      rw [same] at mantissa
      exact absurd mantissa (by decide)

/-! ## The literals -/

section Argument

variable {bytes : Bytes} {len : UInt64} (same : bytes.length = len.toNat) {behind : UInt8}
  (stop : isDigit behind = false) (unsigned : behind ≠ 0x2d) (following : Bytes)

include same unsigned

theorem tryParseDoubleWord_iff :
    tryParseDoubleWord (bytes ++ behind :: following) len = some true ↔
      IsDoubleLiteral bytes ∨ bytes = text "." ∨ bytes = text "-." := by
  rw [tryParseDoubleWord_eq following same unsigned, Option.some_inj, tryParseDouble_iff]

include stop

theorem tryParseIntegerWord_iff :
    tryParseIntegerWord (bytes ++ behind :: following) len = some true ↔ IsInteger bytes := by
  rw [tryParseIntegerWord_eq stop following same unsigned, Option.some_inj, tryParseInteger_iff]
  refine and_iff_left ?_
  intro byte first
  cases first
  exact stop

/-- An integer has no point. -/
theorem not_both_accept :
    ¬(tryParseIntegerWord (bytes ++ behind :: following) len = some true ∧
      tryParseDoubleWord (bytes ++ behind :: following) len = some true) := by
  intro ⟨integer, double⟩
  have number := (tryParseIntegerWord_iff same stop unsigned following).mp integer
  rw [tryParseDoubleWord_eq following same unsigned,
    tryParseDouble_numeral ⟨bytes, behind :: following⟩ number.isNumeral] at double
  cases double

end Argument

theorem Delimited.split {memory : Bytes} {len : UInt64} (delimited : Delimited memory len) :
    ∃ bytes behind following, memory = bytes ++ behind :: following ∧
      bytes.length = len.toNat ∧ isDigit behind = false ∧ behind ≠ 0x2d := by
  obtain ⟨behind, here, stop, unsigned, -⟩ := delimited
  obtain ⟨inside, here⟩ := List.getElem?_eq_some_iff.mp here
  refine ⟨memory.take len.toNat, behind, memory.drop (len.toNat + 1), ?_,
    List.length_take_of_le (Nat.le_of_lt inside), stop, unsigned⟩
  rw [← here, List.getElem_cons_drop, List.take_append_drop]

/-- The recognizers tell the numbers from one another and from the rest, and GMP reads what they
accept, unless an argument is a point without a digit. -/
theorem recognizes_iff {gmp : GmpParsers} (documented : gmp.Documented) {memory : Bytes}
    {len : UInt64} (delimited : Delimited memory len) :
    Recognizes gmp memory len ↔
      memory.take len.toNat ≠ text "." ∧ memory.take len.toNat ≠ text "-." := by
  obtain ⟨bytes, behind, following, rfl, same, stop, unsigned⟩ := delimited.split
  have taken : (bytes ++ behind :: following).take len.toNat = bytes := List.take_left' same
  have inside : len.toNat < (bytes ++ behind :: following).length := by
    rw [List.length_append, List.length_cons]
    omega
  have integer := tryParseIntegerWord_iff same stop unsigned following
  have double := tryParseDoubleWord_iff same unsigned following
  have isolated := cString_nulTerminated inside
  rw [taken] at isolated ⊢
  constructor
  · intro recognized
    have exact_ := recognized.double
    rw [taken, double] at exact_
    exact ⟨fun point => not_isDoubleLiteral (.inl point) (exact_.mp (.inr (.inl point))),
      fun point => not_isDoubleLiteral (.inr point) (exact_.mp (.inr (.inr point)))⟩
  · intro ⟨point, minusPoint⟩
    rw [or_iff_left (not_or.mpr ⟨point, minusPoint⟩)] at double
    refine ⟨⟨?_, ?_⟩, ?_, ?_, ?_, ?_, ?_⟩
    · rw [tryParseIntegerWord_eq stop following same unsigned]
      rfl
    · rw [tryParseDoubleWord_eq following same unsigned]
      rfl
    · rw [taken, integer]
    · rw [taken, double]
    · exact not_both_accept same stop unsigned following
    · intro accepted
      have number := integer.mp accepted
      rw [isolated number.clean]
      exact documented.integer bytes number.isNumeral
    · intro accepted
      have number := double.mp accepted
      rw [isolated number.clean]
      exact documented.mantissa bytes number.isMantissa

theorem recognizes_fraction : Recognizes .plain (text "-0.5\r\n") 4 :=
  (recognizes_iff GmpParsers.plain_documented ⟨0x0d, by decide⟩).mpr (by decide)

/-- A point alone is accepted, and GMP rejects it. -/
theorem accepts_point :
    Delimited (text ".\r\n") 1 ∧ tryParseDoubleWord (text ".\r\n") 1 = some true ∧
      GmpParsers.plain.mpfSetStr (cString (nulTerminated (text ".\r\n") 1)) = false ∧
      ¬Recognizes .plain (text ".\r\n") 1 := by
  have accepted : tryParseDoubleWord (text ".\r\n") 1 = some true := by decide
  have rejected :
      GmpParsers.plain.mpfSetStr (cString (nulTerminated (text ".\r\n") 1)) = false := by
    decide
  refine ⟨⟨0x0d, by decide⟩, accepted, rejected, fun recognized => ?_⟩
  rw [recognized.readsDouble accepted] at rejected
  cases rejected

end TellyDB.Commands
