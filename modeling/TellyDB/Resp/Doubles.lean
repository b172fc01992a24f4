import TellyDB.Lib.Floating.Truncation
import TellyDB.Resp.Decimals
import TellyDB.Resp.Integers

/-!
Owns the replies that `create_resp_integer_mpf` makes of doubles: where it puts the point, which
bytes it counts, and for which doubles they are a reply that denotes the number.

`none` is an access outside of a buffer.
-/

namespace TellyDB.Resp

open Lib.Slices Lib.Positional Lib.Floating Utils
open Server (ProtocolVersion)

/-- A double as `mpf_get_str` gives it: a sign, digits without zeros at either end, and the
exponent, with room for the arithmetic on it. -/
structure DecimalDouble where
  negative : Bool
  digits : List Nat
  exponent : Int
  canonical : Canonical 10 digits
  zero : digits = [] → negative = false ∧ exponent = 0
  least : -2 ^ 63 ≤ exponent
  less : exponent + 2 < 2 ^ 63

namespace DecimalDouble

/-- ±0.d₁d₂… · 10^exponent. -/
def value (double : DecimalDouble) : ℚ :=
  Lib.Floating.value 10 double.negative double.digits double.exponent

/-- The string of `mpf_get_str`. -/
def str (double : DecimalDouble) : Bytes := signText double.negative ++ digitsText double.digits

/-- The exponent after the sign is counted. -/
def shifted (double : DecimalDouble) : Int :=
  double.exponent + if double.negative then 1 else 0

end DecimalDouble

/-- `(uint64_t) exp`. -/
def unsigned (exp : Int) : Int := exp % 2 ^ 64

/-- The loop that copies the string, with a point where the exponent is: the buffer, and `nbytes`
behind it. -/
def copyDigits (exp : Int) : Bytes → Nat → Bytes → Int → Option (Bytes × Int)
  | [], _, buf, nbytes => some (buf, nbytes)
  | byte :: rest, i, buf, nbytes =>
      if (i : Int) = unsigned exp then do
        let buf ← put buf nbytes [0x2e]
        let buf ← put buf (nbytes + 1) [byte]
        copyDigits exp rest (i + 1) buf (nbytes + 2)
      else do
        let buf ← put buf nbytes [byte]
        copyDigits exp rest (i + 1) buf (nbytes + 1)

/-- A number whose digits end at the point: the frame is written from the start again. -/
def wholeReply (protover : ProtocolVersion) (buf : Bytes) (double : DecimalDouble) :
    Option (Bytes × Int) :=
  if fitsSlong (truncated double.value) then do
    let buf ← put buf 0 (text ":")
    some (buf, 1)
  else do
    let length := double.shifted
    let (buf, nbytes) ← (match protover with
      | .resp2 => do
          let (digitLen, digits) ← ltoa length (List.replicate 4 0)
          let buf ← put buf 0 (text "$")
          let buf ← put buf 1 (digits.take digitLen)
          let nbytes := 1 + digitLen
          let buf ← put buf nbytes crlf
          some (buf, (nbytes + 2 : Int))
      | .resp3 => do
          let buf ← put buf 0 (text "(")
          some (buf, 1))
    let buf ← put buf nbytes (double.str.take length.toNat)
    some (buf, nbytes + length)

/-- Any other number: the text stays, cut at the point under RESP2. -/
def pointReply (protover : ProtocolVersion) (buf : Bytes) (nbytes : Int)
    (double : DecimalDouble) : Option (Bytes × Int) :=
  match protover with
  | .resp2 =>
      if double.shifted = 0 then do
        let buf ← put buf 0 (text ":")
        let buf ← put buf 1 (text "0")
        some (buf, 2)
      else do
        let nbytes := if double.shifted + 1 < nbytes then
          (double.shifted + 1).bmod (2 ^ 32) else nbytes
        let buf ← put buf 0 (text ":")
        some (buf, nbytes)
  | .resp3 => do
      let buf ← put buf 0 (text ",")
      some (buf, nbytes)

/-- The frame around the text that was copied. -/
def frameText (protover : ProtocolVersion) (buf : Bytes) (nbytes : Int)
    (double : DecimalDouble) : Option (Bytes × Int) :=
  if (double.str.length : Int) = unsigned double.shifted then wholeReply protover buf double
  else pointReply protover buf nbytes double

/-- `create_resp_integer_mpf`: how many bytes it counts, and the buffer. -/
def createRespIntegerMpf (protover : ProtocolVersion) (buf : Bytes) (double : DecimalDouble) :
    Option (Nat × Bytes) :=
  if double.str.length = 0 then do
    let buf ← put buf 0 (text ":" ++ text "0" ++ crlf)
    some (4, buf)
  else do
    let (buf, nbytes) ← copyDigits double.shifted double.str 0 buf 1
    let (buf, nbytes) ← frameText protover buf nbytes double
    let buf ← put buf nbytes crlf
    some ((nbytes + 2).toNat, buf)

/-! ## What the reply should be -/

/-- One element with this text: an integer has no point. -/
def IsNumberReply (protover : ProtocolVersion) (written reply : Bytes) : Prop :=
  0x2e ∉ written ∧ reply = text ":" ++ written ++ crlf ∨
    protover = .resp3 ∧ 0x2e ∉ written ∧ reply = text "(" ++ written ++ crlf ∨
    protover = .resp3 ∧ reply = text "," ++ written ++ crlf ∨
    reply = createRespString written

/-- The number that the text should denote. -/
def replied (protover : ProtocolVersion) (double : DecimalDouble) : ℚ :=
  match protover with
  | .resp2 => truncated double.value
  | .resp3 => double.value

/-- The bytes that are counted are one reply, whose text denotes the number. -/
def DenotesDouble (protover : ProtocolVersion) (buf : Bytes) (double : DecimalDouble) : Prop :=
  ∃ nbytes after written, createRespIntegerMpf protover buf double = some (nbytes, after) ∧
    IsNumberReply protover written (after.take nbytes) ∧
    readDecimal written = some (replied protover double)

/-- Where the point has to be. -/
def Denotable (protover : ProtocolVersion) (double : DecimalDouble) : Prop :=
  double.digits = [] ∨
    double.exponent = double.digits.length ∧ ¬fitsSlong (truncated double.value) ∧
      (protover = .resp2 → double.str.length < 1000) ∨
    0 < double.exponent ∧ double.exponent < double.digits.length ∨
    match protover with
    | .resp2 => double.digits ≠ [] ∧ (double.negative = false ∧ double.exponent = 0 ∨
        double.negative = true ∧ double.exponent = -1)
    | .resp3 => double.digits ≠ [] ∧ double.exponent = 0

/-! ## The copy -/

/-- A string from index `i` on, with the point at the exponent. -/
def pointed (exp : Int) : Nat → Bytes → Bytes
  | _, [] => []
  | i, byte :: rest =>
      if exp = i then 0x2e :: byte :: pointed exp (i + 1) rest else byte :: pointed exp (i + 1) rest

theorem unsigned_eq_iff {exp : Int} {i : Nat} (least : -2 ^ 63 ≤ exp) (less : exp < 2 ^ 63)
    (small : i < 2 ^ 62) : (i : Int) = unsigned exp ↔ exp = i := by
  rw [unsigned]
  omega

theorem pointed_outside {exp : Int} {i : Nat} {str : Bytes}
    (outside : exp < i ∨ i + str.length ≤ exp) : pointed exp i str = str := by
  induction str generalizing i with
  | nil => rfl
  | cons byte rest inductionHypothesis =>
      rw [List.length_cons] at outside
      rw [pointed, if_neg (by omega), inductionHypothesis (by omega)]

theorem pointed_inside {exp : Int} {i point : Nat} {str : Bytes} (here : exp = i + point)
    (inside : point < str.length) :
    pointed exp i str = str.take point ++ 0x2e :: str.drop point := by
  induction str generalizing i point with
  | nil => exact absurd inside (Nat.not_lt_zero _)
  | cons byte rest inductionHypothesis =>
      rw [pointed]
      cases point with
      | zero =>
          rw [if_pos (by simpa using here), pointed_outside (by omega)]
          rfl
      | succ point =>
          have behind : exp = (i + 1 : Nat) + (point : Int) := by omega
          rw [if_neg (by omega), inductionHypothesis behind (Nat.lt_of_succ_lt_succ inside)]
          rfl

theorem length_pointed_le (exp : Int) (i : Nat) (str : Bytes) :
    (pointed exp i str).length ≤ str.length + 1 := by
  rcases lt_or_ge exp i with before | after
  · rw [pointed_outside (.inl before)]
    exact Nat.le_succ _
  · obtain ⟨point, here⟩ := Int.le.dest after
    by_cases inside : point < str.length
    · rw [pointed_inside here.symm inside, List.length_append, List.length_cons, ← Nat.add_assoc,
        ← List.length_append, List.take_append_drop]
    · rw [pointed_outside (.inr (by omega))]
      exact Nat.le_succ _

/-- The loop writes the string with its point behind what is there. -/
theorem copyDigits_eq {exp : Int} {i : Nat} {str front tail : Bytes} {nbytes : Int}
    (least : -2 ^ 63 ≤ exp) (less : exp < 2 ^ 63) (small : i + str.length < 2 ^ 62)
    (here : nbytes = front.length) (room : (pointed exp i str).length ≤ tail.length) :
    copyDigits exp str i (front ++ tail) nbytes =
      some (front ++ pointed exp i str ++ tail.drop (pointed exp i str).length,
        nbytes + (pointed exp i str).length) := by
  induction str generalizing i front tail nbytes with
  | nil => simp [copyDigits, pointed]
  | cons byte rest inductionHypothesis =>
      have index := unsigned_eq_iff (i := i) least less (by omega)
      rw [List.length_cons] at small
      rw [copyDigits]
      by_cases point : exp = i
      · have written : pointed exp i (byte :: rest) =
            0x2e :: byte :: pointed exp (i + 1) rest := if_pos point
        rw [written, List.length_cons, List.length_cons] at room
        rw [if_pos (index.mpr point), put_append front here (by simp; omega)]
        simp only [Option.bind_eq_bind, Option.bind_some]
        rw [put_append (front ++ [0x2e]) (by simp [here]) (by simp; omega)]
        simp only [Option.bind_some]
        rw [inductionHypothesis (by omega) (by simp [here]) (by simp; omega), written]
        simp [List.drop_drop, Nat.add_comm]
        omega
      · have written : pointed exp i (byte :: rest) = byte :: pointed exp (i + 1) rest :=
          if_neg point
        rw [written, List.length_cons] at room
        rw [if_neg (mt index.mp point), put_append front here (by simp; omega)]
        simp only [Option.bind_eq_bind, Option.bind_some]
        rw [inductionHypothesis (by omega) (by simp [here]) (by simp; omega), written]
        simp [Nat.add_comm]
        omega

/-! ## The steps behind the copy -/

section Steps

variable {double : DecimalDouble} {buf : Bytes}

namespace DecimalDouble

theorem length_str (double : DecimalDouble) :
    double.str.length = double.digits.length + if double.negative then 1 else 0 := by
  rw [str, List.length_append, digitsText, List.length_map, signText]
  cases double.negative <;> simp [Nat.add_comm]

theorem str_ne_nil (some_ : double.digits ≠ []) : 0 < double.str.length := by
  have positive := List.length_pos_of_ne_nil some_
  rw [length_str]
  omega

theorem shifted_bounds (double : DecimalDouble) :
    -2 ^ 63 ≤ double.shifted ∧ double.shifted + 1 < 2 ^ 63 := by
  have least := double.least
  have less := double.less
  rw [shifted]
  split <;> omega

/-- The exponent is the length of the string where it is that of the digits. -/
theorem shifted_eq_iff (double : DecimalDouble) :
    double.shifted = double.str.length ↔ double.exponent = double.digits.length := by
  rw [length_str, shifted]
  split <;> omega

/-- The text of the digits with the point. -/
def pointedText (double : DecimalDouble) : Bytes := pointed double.shifted 0 double.str

end DecimalDouble

/-- The text lies behind the first byte. -/
theorem copied (room : double.str.length + 8 ≤ buf.length) (small : buf.length < 2 ^ 31) :
    ∃ first tail, copyDigits double.shifted double.str 0 buf 1 =
        some (first :: (double.pointedText ++ tail),
          ((1 + double.pointedText.length : Nat) : Int)) ∧
      1 + double.pointedText.length + tail.length = buf.length := by
  obtain ⟨first, rest, rfl⟩ : ∃ first rest, buf = first :: rest :=
    List.exists_cons_of_length_pos (by omega)
  obtain ⟨least, less⟩ := double.shifted_bounds
  have length := length_pointed_le double.shifted 0 double.str
  rw [List.length_cons] at room small
  have within : (pointed double.shifted 0 double.str).length ≤ rest.length := by omega
  have copy : copyDigits double.shifted double.str 0 ([first] ++ rest) 1 = _ :=
    copyDigits_eq least (by omega) (by omega) rfl within
  refine ⟨first, rest.drop double.pointedText.length, ?_, ?_⟩
  · rw [← List.singleton_append, copy]
    simp [DecimalDouble.pointedText]
  · rw [List.length_drop, List.length_cons, DecimalDouble.pointedText]
    omega

/-- A number that only gets a type and a CRLF. -/
theorem made_step {protover : ProtocolVersion} (some_ : double.digits ≠ [])
    (room : double.str.length + 8 ≤ buf.length) (small : buf.length < 2 ^ 31) {type : String}
    {nbytes : Int} (single : (text type).length = 1)
    (step : ∀ copy : Bytes,
      frameText protover copy (1 + double.pointedText.length : Nat) double = do
          let copy ← put copy 0 (text type)
          some (copy, nbytes)) :
    ∃ typed tail, typed = text type ++ (double.pointedText ++ tail) ∧
      typed.length = buf.length ∧
      createRespIntegerMpf protover buf double =
        (put typed nbytes crlf).map fun after => ((nbytes + 2).toNat, after) := by
  obtain ⟨first, tail, copy, length⟩ := copied room small
  have filled := double.str_ne_nil some_
  have typing : put (first :: (double.pointedText ++ tail)) 0 (text type) =
      some (text type ++ (double.pointedText ++ tail)) := by
    rw [put_zero (by rw [single, List.length_cons]; omega), single]
    rfl
  refine ⟨_, tail, rfl, ?_, ?_⟩
  · rw [List.length_append, List.length_append, single]
    omega
  · rw [createRespIntegerMpf, if_neg (by omega), copy]
    simp only [Option.bind_eq_bind, Option.bind_some]
    rw [step, typing]
    simp only [Option.bind_eq_bind, Option.bind_some, Option.map_eq_bind]
    rfl

/-- The bytes that are counted, where the CRLF has room behind them. -/
theorem made_typed {protover : ProtocolVersion} (some_ : double.digits ≠ [])
    (room : double.str.length + 8 ≤ buf.length) (small : buf.length < 2 ^ 31) {type : String}
    {count : Nat} (single : (text type).length = 1) (bounded : count + 3 ≤ buf.length)
    (step : ∀ copy : Bytes,
      frameText protover copy (1 + double.pointedText.length : Nat) double = do
          let copy ← put copy 0 (text type)
          some (copy, ((1 + count : Nat) : Int))) :
    ∃ after tail, createRespIntegerMpf protover buf double = some (1 + count + 2, after) ∧
      after.take (1 + count + 2) =
        text type ++ (double.pointedText ++ tail).take count ++ crlf := by
  obtain ⟨typed, tail, same, length, made⟩ := made_step some_ room small single step
  have ends : crlf.length = 2 := rfl
  obtain ⟨after, ending, _, front⟩ := put_take typed crlf (1 + count : Nat) _ rfl (by omega)
  refine ⟨after, tail, ?_, ?_⟩
  · rw [made, ending]
    rfl
  · rw [ends] at front
    rw [front, same, ← single, List.take_length_add_append]

end Steps

/-! ## What the texts denote -/

section Texts

variable {double : DecimalDouble}

namespace DecimalDouble

/-- The number without its sign. -/
def magnitude (double : DecimalDouble) : ℚ :=
  Lib.Floating.magnitude ℚ 10 double.digits double.exponent

theorem truncated_value (double : DecimalDouble) : truncated double.value =
    if double.negative then -⌊double.magnitude⌋ else ⌊double.magnitude⌋ :=
  truncated_signed (magnitude_nonneg _ _) double.negative

/-- The text without a point. -/
theorem read_str (some_ : double.digits ≠ []) : readDecimal double.str =
    some (signed double.negative (ofBigEndian 10 double.digits : ℚ)) :=
  readDecimal_sign double.negative (readUnsigned_digits double.canonical.small some_)

/-- A point among the digits, or in front of them. -/
theorem read_pointedText {point : Nat} (here : double.exponent = point)
    (inside : point < double.digits.length) :
    readDecimal double.pointedText = some double.value := by
  have some_ : double.digits ≠ [] := List.ne_nil_of_length_pos (by omega)
  have text : double.pointedText = signText double.negative ++
      (digitsText (double.digits.take point) ++ 0x2e :: digitsText (double.digits.drop point)) := by
    have length := double.length_str
    have splits : digitsText double.digits = digitsText (double.digits.take point) ++
        digitsText (double.digits.drop point) := by
      rw [← digitsText_append, List.take_append_drop]
    have shift : (digitsText (double.digits.take point)).length = point := by
      rw [digitsText, List.length_map, List.length_take]
      omega
    have front : (signText double.negative ++ digitsText (double.digits.take point)).length =
        point + if double.negative then 1 else 0 := by
      rw [List.length_append, shift, signText]
      cases double.negative <;> simp [Nat.add_comm]
    have place : double.shifted = (0 : Nat) +
        ((signText double.negative ++ digitsText (double.digits.take point)).length : Int) := by
      rw [front, shifted, here]
      split <;> simp
    have behind : (signText double.negative ++ digitsText (double.digits.take point)).length <
        double.str.length := by
      rw [front, length]
      omega
    rw [pointedText, pointed_inside place behind, str, splits, ← List.append_assoc,
      List.take_left, List.drop_left, List.append_assoc]
  have small : ∀ digit ∈ double.digits.take point ++ double.digits.drop point, digit < 10 := by
    rw [List.take_append_drop]
    exact double.canonical.small
  have joined : double.digits.take point ++ double.digits.drop point ≠ [] := by
    rwa [List.take_append_drop]
  have read := readUnsigned_point small joined
  rw [List.take_append_drop, List.length_drop] at read
  rw [text, readDecimal_sign double.negative read, value, Lib.Floating.value,
    magnitude_eq_div (by decide) here inside.le]
  rfl

/-- The digits in front of the point. -/
theorem read_front {point : Nat} (positive : 0 < point) (inside : point ≤ double.digits.length) :
    readDecimal (double.str.take (point + if double.negative then 1 else 0)) =
      some (signed double.negative (ofBigEndian 10 (double.digits.take point) : ℚ)) := by
  have front : double.str.take (point + if double.negative then 1 else 0) =
      signText double.negative ++ digitsText (double.digits.take point) := by
    rw [str, signText]
    cases double.negative <;> simp [digitsText, List.map_take]
  have some_ : double.digits.take point ≠ [] := by
    apply List.ne_nil_of_length_pos
    rw [List.length_take]
    omega
  rw [front]
  exact readDecimal_sign double.negative (readUnsigned_digits
    (fun digit member => double.canonical.small digit (List.mem_of_mem_take member)) some_)

/-- The text without a point denotes another number when the point is not behind it. -/
theorem read_str_ne (some_ : double.digits ≠ [])
    (elsewhere : double.exponent ≠ double.digits.length) :
    readDecimal double.str ≠ some double.value := by
  have other : double.magnitude ≠ ofBigEndian 10 double.digits :=
    magnitude_ne (by decide) double.canonical some_ elsewhere
  rw [read_str some_, value, Lib.Floating.value]
  intro same
  apply other
  have equal := Option.some.inj same
  cases negative : double.negative with
  | true =>
      rw [negative] at equal
      exact (neg_inj.mp equal).symm
  | false =>
      rw [negative] at equal
      exact equal.symm

/-- A point behind the digits leaves nothing to truncate. -/
theorem truncated_value_of_le (behind : (double.digits.length : Int) ≤ double.exponent) :
    (truncated double.value : ℚ) = double.value := by
  have whole : (⌊double.magnitude⌋ : ℚ) = double.magnitude := floor_magnitude_of_le behind
  rw [truncated_value, value, Lib.Floating.value]
  cases double.negative with
  | true =>
      rw [if_pos rfl, Int.cast_neg, whole]
      rfl
  | false =>
      rw [if_neg Bool.false_ne_true, whole]
      rfl

/-- No beginning of the text, whatever follows it, denotes zero. -/
theorem read_take_ne_zero (some_ : double.digits ≠ []) (tail : Bytes) (count : Nat) :
    readDecimal ((double.str ++ tail).take count) ≠ some 0 := by
  obtain ⟨first, rest, digits⟩ := List.exists_cons_of_ne_nil some_
  have small : first < 10 := double.canonical.small first (by rw [digits]; exact List.mem_cons_self)
  have nonzero : first ≠ 0 := by
    rintro rfl
    exact double.canonical.leading (by rw [digits]; rfl)
  have begins : double.str ++ tail =
      signText double.negative ++ digitByte first :: (digitsText rest ++ tail) := by
    rw [str, digits]
    simp [digitsText]
  rw [begins]
  rcases Nat.lt_or_ge (signText double.negative).length count with behind | before
  · obtain ⟨more, rfl⟩ := Nat.exists_eq_add_of_lt behind
    rw [Nat.add_assoc, List.take_length_add_append, List.take_succ_cons]
    exact readDecimal_sign_ne_zero nonzero small _ _
  · rw [List.take_append_of_le_length before]
    cases double.negative with
    | true =>
        cases count with
        | zero => exact (Option.some_ne_none 0).symm
        | succ count =>
            rw [show signText true = [0x2d] from rfl, List.take_succ_cons, List.take_nil]
            exact (Option.some_ne_none 0).symm
    | false =>
        rw [show signText false = [] from rfl, List.take_nil]
        exact (Option.some_ne_none 0).symm

end DecimalDouble

end Texts

/-! ## What a reply denotes -/

section Replies

variable {double : DecimalDouble} {buf : Bytes} {protover : ProtocolVersion}

theorem denotesDouble_colon_iff {nbytes : Nat} {after shown : Bytes}
    (made : createRespIntegerMpf protover buf double = some (nbytes, after))
    (front : after.take nbytes = text ":" ++ shown ++ crlf) :
    DenotesDouble protover buf double ↔
      0x2e ∉ shown ∧ readDecimal shown = some (replied protover double) := by
  constructor
  · rintro ⟨_, _, written, again, reply, denotes⟩
    rw [made] at again
    cases again
    rw [front] at reply
    rcases reply with ⟨whole, same⟩ | ⟨_, _, same⟩ | ⟨_, same⟩ | same
    · obtain rfl := List.append_cancel_right (List.cons.inj same).2
      exact ⟨whole, denotes⟩
    all_goals cases (List.cons.inj same).1
  · rintro ⟨whole, denotes⟩
    exact ⟨nbytes, after, shown, made, .inl ⟨whole, front⟩, denotes⟩

theorem denotesDouble_comma_iff {nbytes : Nat} {after shown : Bytes}
    (made : createRespIntegerMpf .resp3 buf double = some (nbytes, after))
    (front : after.take nbytes = text "," ++ shown ++ crlf) :
    DenotesDouble .resp3 buf double ↔ readDecimal shown = some double.value := by
  constructor
  · rintro ⟨_, _, written, again, reply, denotes⟩
    rw [made] at again
    cases again
    rw [front] at reply
    rcases reply with ⟨_, same⟩ | ⟨_, _, same⟩ | ⟨_, same⟩ | same
    · cases (List.cons.inj same).1
    · cases (List.cons.inj same).1
    · obtain rfl := List.append_cancel_right (List.cons.inj same).2
      exact denotes
    · cases (List.cons.inj same).1
  · intro denotes
    exact ⟨nbytes, after, shown, made, .inr (.inr (.inl ⟨rfl, front⟩)), denotes⟩

/-- There is no point in the text of the digits. -/
theorem point_not_mem_str (double : DecimalDouble) : 0x2e ∉ double.str := by
  intro member
  rcases List.mem_append.mp member with sign | digit
  · rw [signText] at sign
    split at sign
    · exact absurd (List.mem_singleton.mp sign) (by decide)
    · cases sign
  · exact absurd (isDigitByte_digitsText double.canonical.small _ digit) (by decide)

variable (room : double.str.length + 8 ≤ buf.length) (small : buf.length < 2 ^ 31)

include room small in
theorem whole_iff : (double.str.length : Int) = unsigned double.shifted ↔
    double.exponent = double.digits.length := by
  obtain ⟨least, less⟩ := double.shifted_bounds
  rw [unsigned_eq_iff least (by omega) (by omega), double.shifted_eq_iff]

/-! ### Zero -/

include room in
theorem denotesDouble_zero (none_ : double.digits = []) : DenotesDouble protover buf double := by
  obtain ⟨positive, point⟩ := double.zero none_
  have empty : double.str = [] := by
    rw [DecimalDouble.str, positive, none_]
    rfl
  have value : double.value = 0 := by
    rw [DecimalDouble.value, positive, none_]
    simp [Lib.Floating.value, signed, Lib.Floating.magnitude]
  obtain ⟨after, made, _, front⟩ := put_take buf (text ":" ++ text "0" ++ crlf) 0 0 rfl
    (by rw [show (text ":" ++ text "0" ++ crlf).length = 4 from rfl]; omega)
  have whole : createRespIntegerMpf protover buf double = some (4, after) := by
    rw [createRespIntegerMpf, if_pos (by rw [empty]; rfl), made]
    rfl
  apply (denotesDouble_colon_iff whole front).mpr
  refine ⟨by decide, ?_⟩
  cases protover <;> simp [readDecimal_zero, replied, value, truncated]

/-! ### Numbers whose point is behind their digits -/

include room small in
theorem not_denotesDouble_fits (whole : double.exponent = double.digits.length)
    (some_ : double.digits ≠ []) (fits : fitsSlong (truncated double.value)) :
    ¬DenotesDouble protover buf double := by
  obtain ⟨after, tail, made, front⟩ := @made_typed double buf protover some_ room small ":" 0 rfl
    (by omega) (by
      intro copy
      rw [frameText, if_pos ((whole_iff room small).mpr whole), wholeReply, if_pos fits]
      rfl)
  rw [denotesDouble_colon_iff made front]
  rintro ⟨_, nothing⟩
  cases nothing

/-- The string is written again behind the type. -/
theorem made_bigNumber (whole : double.exponent = double.digits.length)
    (some_ : double.digits ≠ []) (fits : ¬fitsSlong (truncated double.value))
    (room : double.str.length + 8 ≤ buf.length) (small : buf.length < 2 ^ 31) :
    ∃ nbytes after, createRespIntegerMpf .resp3 buf double = some (nbytes, after) ∧
      after.take nbytes = text "(" ++ double.str ++ crlf := by
  have filled := double.str_ne_nil some_
  have shifted := double.shifted_eq_iff.mpr whole
  obtain ⟨first, tail, copy, length⟩ := copied room small
  obtain ⟨typed, typing, typedLength, typedFront⟩ := put_take
    (first :: (double.pointedText ++ tail)) (text "(") 0 0 rfl
    (by rw [List.length_cons, List.length_append, show (text "(").length = 1 from rfl]; omega)
  rw [List.length_cons, List.length_append] at typedLength
  obtain ⟨shown, showing, shownLength, shownFront⟩ := put_take typed double.str 1 1 rfl (by omega)
  obtain ⟨after, ending, _, front⟩ := put_take shown crlf (1 + double.str.length : Nat) _ rfl
    (by rw [show crlf.length = 2 from rfl]; omega)
  refine ⟨1 + double.str.length + 2, after, ?_, ?_⟩
  · rw [createRespIntegerMpf, if_neg (by omega), copy]
    simp only [Option.bind_eq_bind, Option.bind_some]
    rw [frameText, if_pos ((whole_iff room small).mpr whole), wholeReply, if_neg fits]
    simp only [typing, Option.bind_eq_bind, Option.bind_some, shifted, Int.toNat_natCast,
      List.take_length, showing]
    rw [show (1 : Int) + double.str.length = ((1 + double.str.length : Nat) : Int) by omega,
      ending]
    rfl
  · rw [show crlf.length = 2 from rfl] at front
    rw [show (text "(").length = 1 from rfl, Nat.zero_add] at typedFront
    rw [front, shownFront, typedFront]
    rfl

/-- The header and the string, as long as the length has three digits at most. -/
theorem made_bulk (whole : double.exponent = double.digits.length)
    (some_ : double.digits ≠ []) (fits : ¬fitsSlong (truncated double.value))
    (short : double.str.length < 1000) (room : double.str.length + 8 ≤ buf.length)
    (small : buf.length < 2 ^ 31) :
    ∃ nbytes after, createRespIntegerMpf .resp2 buf double = some (nbytes, after) ∧
      after.take nbytes = createRespString double.str := by
  have filled := double.str_ne_nil some_
  have shifted := double.shifted_eq_iff.mpr whole
  have few : (decimal double.str.length).length ≤ 3 :=
    (length_decimal_le_iff (by decide)).mpr short
  obtain ⟨first, tail, copy, length⟩ := copied room small
  have size : (first :: (double.pointedText ++ tail)).length = buf.length := by
    rw [List.length_cons, List.length_append]
    omega
  obtain ⟨header, written, digits⟩ := ltoa_header short
  have spacious : 1 + (decimal double.str.length).length + 2 + double.str.length + 2 ≤
      (first :: (double.pointedText ++ tail)).length := by
    rw [size]
    omega
  obtain ⟨typed, counting, headed, shown, framed, typing, putCount, putHead, putShown, putEnd,
    front⟩ := put_bulk (Eq.refl double.str.length) spacious
  refine ⟨_, framed, ?_, front⟩
  rw [createRespIntegerMpf, if_neg (by omega), copy]
  simp only [Option.bind_eq_bind, Option.bind_some]
  rw [frameText, if_pos ((whole_iff room small).mpr whole), wholeReply, if_neg fits]
  simp only [shifted, written, typing, digits, putCount, putHead, Option.bind_eq_bind,
    Option.bind_some, Int.toNat_natCast, List.take_length]
  have behind : ((1 + (decimal double.str.length).length : Nat) : Int) + 2 =
      ((1 + (decimal double.str.length).length + 2 : Nat) : Int) := by omega
  have ending : ((1 + (decimal double.str.length).length + 2 : Nat) : Int) + double.str.length =
      ((1 + (decimal double.str.length).length + 2 + double.str.length : Nat) : Int) := by omega
  simp only [behind, putShown, Option.bind_some, ending, putEnd]
  rfl

/-- A longer length leaves the four bytes that it is written into. -/
theorem not_denotesDouble_long (whole : double.exponent = double.digits.length)
    (some_ : double.digits ≠ []) (fits : ¬fitsSlong (truncated double.value))
    (long : 1000 ≤ double.str.length) (room : double.str.length + 8 ≤ buf.length)
    (small : buf.length < 2 ^ 31) : ¬DenotesDouble .resp2 buf double := by
  have filled := double.str_ne_nil some_
  have shifted := double.shifted_eq_iff.mpr whole
  obtain ⟨first, tail, copy, length⟩ := copied room small
  have outside := ltoa_header_long long (by omega)
  rintro ⟨nbytes, after, written, made, _⟩
  rw [createRespIntegerMpf, if_neg (by omega), copy] at made
  simp only [Option.bind_eq_bind, Option.bind_some] at made
  rw [frameText, if_pos ((whole_iff room small).mpr whole), wholeReply, if_neg fits] at made
  simp only [shifted, outside, Option.bind_eq_bind, Option.bind_none] at made
  cases made

/-- The string is the number, and only a long header has no room. -/
theorem denotesDouble_whole (whole : double.exponent = double.digits.length)
    (some_ : double.digits ≠ []) (fits : ¬fitsSlong (truncated double.value))
    (room : double.str.length + 8 ≤ buf.length) (small : buf.length < 2 ^ 31) :
    DenotesDouble protover buf double ↔ (protover = .resp2 → double.str.length < 1000) := by
  have exact_ : (truncated double.value : ℚ) = double.value :=
    double.truncated_value_of_le whole.ge
  have denotes : readDecimal double.str = some (replied protover double) := by
    have value : double.value = signed double.negative (ofBigEndian 10 double.digits : ℚ) := by
      rw [DecimalDouble.value, Lib.Floating.value, magnitude_eq_div (by decide) whole le_rfl,
        Nat.sub_self, pow_zero, div_one]
    rw [double.read_str some_, ← value]
    cases protover with
    | resp2 => rw [replied, exact_]
    | resp3 => rw [replied]
  cases protover with
  | resp3 =>
      obtain ⟨nbytes, after, made, front⟩ := made_bigNumber whole some_ fits room small
      exact iff_of_true ⟨nbytes, after, _, made,
        .inr (.inl ⟨rfl, point_not_mem_str double, front⟩), denotes⟩ nofun
  | resp2 =>
      rcases Nat.lt_or_ge double.str.length 1000 with short | long
      · obtain ⟨nbytes, after, made, front⟩ := made_bulk whole some_ fits short room small
        exact iff_of_true ⟨nbytes, after, _, made, .inr (.inr (.inr front)), denotes⟩
          fun _ => short
      · apply iff_of_false (not_denotesDouble_long whole some_ fits long room small)
        exact fun short => absurd (short rfl) (Nat.not_lt.mpr long)

/-! ### Numbers with their point elsewhere -/

/-- The fate of the text under RESP3. -/
theorem denotesDouble_comma (elsewhere : double.exponent ≠ double.digits.length)
    (some_ : double.digits ≠ []) (room : double.str.length + 8 ≤ buf.length)
    (small : buf.length < 2 ^ 31) :
    DenotesDouble .resp3 buf double ↔ readDecimal double.pointedText = some double.value := by
  have length := length_pointed_le double.shifted 0 double.str
  obtain ⟨after, tail, made, front⟩ := @made_typed double buf .resp3 some_ room small ","
    double.pointedText.length rfl (by rw [DecimalDouble.pointedText]; omega) (by
      intro copy
      rw [frameText, if_neg (mt (whole_iff room small).mp elsewhere)]
      rfl)
  rw [List.take_left] at front
  exact denotesDouble_comma_iff made front

/-- The type and the first digits under RESP2. -/
theorem cut_step (copy : Bytes) (elsewhere : double.exponent ≠ double.digits.length)
    (some_ : double.shifted ≠ 0) (room : double.str.length + 8 ≤ buf.length)
    (small : buf.length < 2 ^ 31) :
    frameText .resp2 copy (1 + double.pointedText.length : Nat) double = (do
      let copy ← put copy 0 (text ":")
      some (copy, if double.shifted + 1 < (1 + double.pointedText.length : Nat) then
        (double.shifted + 1).bmod (2 ^ 32) else (1 + double.pointedText.length : Nat))) := by
  rw [frameText, if_neg (mt (whole_iff room small).mp elsewhere), pointReply, if_neg some_]

/-- The whole part alone, where it is zero. -/
theorem denotesDouble_shifted_zero (zero : double.shifted = 0)
    (some_ : double.digits ≠ []) (room : double.str.length + 8 ≤ buf.length)
    (small : buf.length < 2 ^ 31) : DenotesDouble .resp2 buf double := by
  have positive := List.length_pos_of_ne_nil some_
  have filled := double.str_ne_nil some_
  have before : double.exponent ≤ 0 := by
    rw [DecimalDouble.shifted] at zero
    split at zero <;> omega
  have elsewhere : double.exponent ≠ double.digits.length := by omega
  obtain ⟨first, tail, copy, length⟩ := copied room small
  have ends : crlf.length = 2 := rfl
  have type : (text ":").length = 1 := rfl
  have digit : (text "0").length = 1 := rfl
  obtain ⟨typed, typing, typedLength, typedFront⟩ := put_take
    (first :: (double.pointedText ++ tail)) (text ":") 0 0 rfl (by simp; omega)
  rw [List.length_cons, List.length_append] at typedLength
  obtain ⟨shown, showing, shownLength, shownFront⟩ := put_take typed (text "0") 1 1 rfl (by omega)
  obtain ⟨after, ending, _, front⟩ := put_take shown crlf 2 2 rfl (by omega)
  have made : createRespIntegerMpf .resp2 buf double = some (4, after) := by
    rw [createRespIntegerMpf, if_neg (by omega), copy]
    simp only [Option.bind_eq_bind, Option.bind_some]
    rw [frameText, if_neg (mt (whole_iff room small).mp elsewhere), pointReply, if_pos zero]
    simp only [typing, showing, Option.bind_eq_bind, Option.bind_some, ending]
    rfl
  have reply : after.take 4 = text ":" ++ text "0" ++ crlf := by
    rw [type, Nat.zero_add] at typedFront
    rw [ends] at front
    rw [digit] at shownFront
    rw [front, shownFront, typedFront]
    rfl
  apply (denotesDouble_colon_iff made reply).mpr
  refine ⟨by decide, ?_⟩
  have none_ : ⌊double.magnitude⌋ = 0 :=
    floor_magnitude_of_nonpos (by decide) double.canonical.small before
  rw [readDecimal_zero, replied, double.truncated_value, none_]
  simp

/-- The digits before the point, which are none for a negative number below one. -/
theorem denotesDouble_inside {point : Nat} (here : double.exponent = point)
    (inside : point < double.digits.length)
    (some_ : double.shifted ≠ 0) (room : double.str.length + 8 ≤ buf.length)
    (small : buf.length < 2 ^ 31) : DenotesDouble .resp2 buf double ↔ 0 < point := by
  have place : double.shifted = (point + if double.negative then 1 else 0 : Nat) := by
    rw [DecimalDouble.shifted, here]
    split <;> rfl
  have within : (point + if double.negative then 1 else 0) < double.str.length := by
    rw [double.length_str]
    omega
  have text : double.pointedText =
      double.str.take (point + if double.negative then 1 else 0) ++
        0x2e :: double.str.drop (point + if double.negative then 1 else 0) :=
    pointed_inside (by rw [place]; omega) within
  have length : double.pointedText.length = double.str.length + 1 := by
    rw [text, List.length_append, List.length_cons, ← Nat.add_assoc, ← List.length_append,
      List.take_append_drop]
  have nbytes : (if double.shifted + 1 < (1 + double.pointedText.length : Nat) then
      (double.shifted + 1).bmod (2 ^ 32) else (1 + double.pointedText.length : Nat)) =
        ((1 + (point + if double.negative then 1 else 0) : Nat) : Int) := by
    rw [place, if_pos (by omega), Int.bmod_eq_of_le (by omega) (by omega)]
    omega
  obtain ⟨after, tail, made, front⟩ := @made_typed double buf .resp2 (by
      apply List.ne_nil_of_length_pos
      omega) room small ":" (point + if double.negative then 1 else 0) rfl (by omega) (by
      intro copy
      rw [cut_step copy (by omega) some_ room small, nbytes])
  have shown : (double.pointedText ++ tail).take (point + if double.negative then 1 else 0) =
      double.str.take (point + if double.negative then 1 else 0) := by
    rw [text, List.append_assoc]
    apply List.take_left'
    rw [List.length_take]
    omega
  rw [shown] at front
  rw [denotesDouble_colon_iff made front]
  have whole : (0x2e : UInt8) ∉
      double.str.take (point + if double.negative then 1 else 0) :=
    fun member => point_not_mem_str double (List.mem_of_mem_take member)
  by_cases positive : 0 < point
  · refine iff_of_true ⟨whole, ?_⟩ positive
    have floor : ⌊double.magnitude⌋ = ofBigEndian 10 (double.digits.take point) :=
      floor_magnitude (by decide) double.canonical.small here inside.le
    rw [double.read_front positive inside.le, replied, double.truncated_value, floor]
    cases double.negative <;> simp [signed]
  · obtain rfl : point = 0 := by omega
    have negative : double.negative = true := by
      by_contra nonnegative
      apply some_
      rw [place, if_neg nonnegative]
      rfl
    apply iff_of_false _ positive
    rintro ⟨_, denotes⟩
    rw [DecimalDouble.str, negative] at denotes
    cases denotes

/-- Digits without the zeros behind them. -/
theorem not_denotesDouble_behind (behind : (double.digits.length : Int) < double.exponent)
    (some_ : double.digits ≠ []) (room : double.str.length + 8 ≤ buf.length)
    (small : buf.length < 2 ^ 31) : ¬DenotesDouble .resp2 buf double := by
  have place : (double.str.length : Int) < double.shifted := by
    rw [double.length_str, DecimalDouble.shifted]
    split <;> omega
  have text : double.pointedText = double.str := pointed_outside (.inr (by omega))
  have nbytes : (if double.shifted + 1 < (1 + double.pointedText.length : Nat) then
      (double.shifted + 1).bmod (2 ^ 32) else (1 + double.pointedText.length : Nat)) =
        ((1 + double.str.length : Nat) : Int) := by
    rw [text, if_neg (by omega)]
  obtain ⟨after, tail, made, front⟩ := @made_typed double buf .resp2 some_ room small ":"
    double.str.length rfl (by omega) (by
      intro copy
      rw [cut_step copy (by omega) (by omega) room small, nbytes])
  rw [text, List.take_left] at front
  rw [denotesDouble_colon_iff made front, replied, double.truncated_value_of_le behind.le]
  rintro ⟨_, denotes⟩
  exact double.read_str_ne some_ behind.ne' denotes

/-- A reply is not a CRLF alone. -/
theorem not_isNumberReply_crlf {written : Bytes} : ¬IsNumberReply protover written crlf := by
  rintro (⟨_, same⟩ | ⟨_, _, same⟩ | ⟨_, same⟩ | same)
  all_goals cases (List.cons.inj same).1

/-- A number below a tenth counts bytes in front of the buffer, or none of its digits, or digits
that denote no zero. -/
theorem not_denotesDouble_before (before : double.shifted < 0) (some_ : double.digits ≠ [])
    (room : double.str.length + 8 ≤ buf.length) (small : buf.length < 2 ^ 31) :
    ¬DenotesDouble .resp2 buf double := by
  have negative : double.exponent < 0 := by
    rw [DecimalDouble.shifted] at before
    split at before <;> omega
  have pointless : double.pointedText = double.str := pointed_outside (.inl before)
  have none_ : ⌊double.magnitude⌋ = 0 :=
    floor_magnitude_of_nonpos (by decide) double.canonical.small negative.le
  have zero : replied .resp2 double = 0 := by
    rw [replied, double.truncated_value, none_]
    simp
  have ends : crlf.length = 2 := rfl
  obtain ⟨typed, tail, same, length, made⟩ := @made_step double buf .resp2 some_ room small ":" _
    rfl (fun copy => cut_step copy (by omega) (by omega) room small)
  rw [pointless] at same
  rw [if_pos (by omega)] at made
  have outside : put typed ((double.shifted + 1).bmod (2 ^ 32)) crlf = none →
      ¬DenotesDouble .resp2 buf double := by
    rintro leaves ⟨nbytes, after, written, again, _⟩
    rw [made, leaves] at again
    cases again
  rcases lt_or_ge ((double.shifted + 1).bmod (2 ^ 32)) 0 with front | behind
  · exact outside (put_negative front)
  obtain ⟨nbytes, counted⟩ := Int.eq_ofNat_of_zero_le behind
  by_cases inside : nbytes + crlf.length ≤ typed.length
  · obtain ⟨after, ending, _, shown⟩ := put_take typed crlf nbytes nbytes rfl inside
    have total : createRespIntegerMpf .resp2 buf double = some (nbytes + 2, after) := by
      rw [made, counted, ending]
      rfl
    rw [ends] at shown
    cases nbytes with
    | zero =>
        rintro ⟨_, _, written, again, reply, _⟩
        rw [total] at again
        cases again
        rw [shown] at reply
        exact not_isNumberReply_crlf reply
    | succ count =>
        have digits : typed.take (count + 1) = text ":" ++ (double.str ++ tail).take count := by
          rw [same]
          rfl
        rw [digits] at shown
        rw [denotesDouble_colon_iff total shown, zero]
        rintro ⟨_, denotes⟩
        exact double.read_take_ne_zero some_ tail count denotes
  · apply outside
    rw [counted, put, if_neg (by omega)]

/-! ### All numbers -/

theorem denotesDouble_resp2_elsewhere (elsewhere : double.exponent ≠ double.digits.length)
    (some_ : double.digits ≠ []) (room : double.str.length + 8 ≤ buf.length)
    (small : buf.length < 2 ^ 31) : DenotesDouble .resp2 buf double ↔
      double.shifted = 0 ∨ 0 < double.exponent ∧ double.exponent < double.digits.length := by
  by_cases zero : double.shifted = 0
  · exact iff_of_true (denotesDouble_shifted_zero zero some_ room small) (.inl zero)
  rcases lt_or_ge double.exponent double.digits.length with inside | behind
  · rcases lt_or_ge double.exponent 0 with before | within
    · have negative : double.shifted < 0 := by
        have next : double.shifted ≤ double.exponent + 1 := by
          rw [DecimalDouble.shifted]
          split <;> omega
        omega
      apply iff_of_false (not_denotesDouble_before negative some_ room small)
      omega
    · obtain ⟨point, here⟩ := Int.eq_ofNat_of_zero_le within
      rw [denotesDouble_inside here (by omega) zero room small]
      omega
  · apply iff_of_false (not_denotesDouble_behind (by omega) some_ room small)
    omega

/-- A point in front of a minus makes no number. -/
theorem denotesDouble_resp3_elsewhere (elsewhere : double.exponent ≠ double.digits.length)
    (some_ : double.digits ≠ []) (room : double.str.length + 8 ≤ buf.length)
    (small : buf.length < 2 ^ 31) : DenotesDouble .resp3 buf double ↔
      0 ≤ double.exponent ∧ double.exponent < double.digits.length := by
  rw [denotesDouble_comma elsewhere some_ room small]
  by_cases inside : 0 ≤ double.exponent ∧ double.exponent < double.digits.length
  · obtain ⟨point, here⟩ := Int.eq_ofNat_of_zero_le inside.1
    exact iff_of_true (double.read_pointedText here (by omega)) inside
  · apply iff_of_false _ inside
    have length := double.length_str
    by_cases zero : double.shifted = 0
    · have negative : double.negative = true := by
        by_contra nonnegative
        rw [DecimalDouble.shifted, if_neg nonnegative] at zero
        have positive := List.length_pos_of_ne_nil some_
        omega
      have text : double.pointedText = 0x2e :: 0x2d :: digitsText double.digits := by
        have place : double.shifted = (0 : Nat) + ((0 : Nat) : Int) := by omega
        have front := pointed_inside place (double.str_ne_nil some_)
        rw [DecimalDouble.pointedText, front, DecimalDouble.str, negative]
        rfl
      rw [text]
      exact nofun
    · have pointless : double.pointedText = double.str := by
        have outside : double.shifted < 0 ∨ double.str.length ≤ double.shifted := by
          rw [DecimalDouble.shifted] at zero ⊢
          rw [length]
          cases negative : double.negative with
          | true =>
              rw [negative, if_pos rfl] at zero
              rw [if_pos rfl, if_pos rfl]
              omega
          | false =>
              rw [negative, if_neg Bool.false_ne_true] at zero
              rw [if_neg Bool.false_ne_true, if_neg Bool.false_ne_true]
              omega
        exact pointed_outside (by omega)
      rw [pointless]
      exact double.read_str_ne some_ elsewhere

/-- The reply denotes the number exactly where its point is among its digits, or behind them all
in a number that is no `long`, or where its whole part is written as zero. -/
theorem denotesDouble_iff (protover : ProtocolVersion) (double : DecimalDouble)
    (room : double.str.length + 8 ≤ buf.length) (small : buf.length < 2 ^ 31) :
    DenotesDouble protover buf double ↔ Denotable protover double := by
  by_cases none_ : double.digits = []
  · exact iff_of_true (denotesDouble_zero room none_) (.inl none_)
  have positive := List.length_pos_of_ne_nil none_
  by_cases whole : double.exponent = double.digits.length
  · by_cases fits : fitsSlong (truncated double.value)
    · apply iff_of_false (not_denotesDouble_fits room small whole none_ fits)
      rintro (empty | ⟨_, large, _⟩ | ⟨_, inside⟩ | other)
      · exact none_ empty
      · exact large fits
      · omega
      · cases protover <;> omega
    · rw [denotesDouble_whole whole none_ fits room small]
      constructor
      · exact fun short => .inr (.inl ⟨whole, fits, short⟩)
      · rintro (empty | ⟨_, _, short⟩ | ⟨_, inside⟩ | other)
        · exact absurd empty none_
        · exact short
        · omega
        · cases protover <;> omega
  · cases protover with
    | resp2 =>
        rw [denotesDouble_resp2_elsewhere whole none_ room small, DecimalDouble.shifted, Denotable]
        cases double.negative <;> simp [none_, whole] <;> omega
    | resp3 =>
        rw [denotesDouble_resp3_elsewhere whole none_ room small, Denotable]
        simp [none_, whole]
        omega

/-- The digits of four, with the point behind them. -/
def four : DecimalDouble where
  negative := false
  digits := [4]
  exponent := 1
  canonical := ⟨by decide, by decide, by decide⟩
  zero := nofun
  least := by decide
  less := by decide

/-- Four and a quarter. -/
def fourAndQuarter : DecimalDouble where
  negative := false
  digits := [4, 2, 5]
  exponent := 1
  canonical := ⟨by decide, by decide, by decide⟩
  zero := nofun
  least := by decide
  less := by decide

theorem denotesDouble_iff_fourAndQuarter :
    DenotesDouble .resp2 (List.replicate 32 0) fourAndQuarter ↔
      Denotable .resp2 fourAndQuarter :=
  denotesDouble_iff .resp2 fourAndQuarter (by decide) (by decide)

/-- Nothing is left of a small integer but its type. -/
theorem not_denotesDouble_four : ¬DenotesDouble .resp2 (List.replicate 32 0) four :=
  not_denotesDouble_fits (by decide) (by decide) rfl (by decide) (by decide +kernel)

end Replies

end TellyDB.Resp
