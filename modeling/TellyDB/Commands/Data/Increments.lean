import TellyDB.Commands.Data.Ranges
import TellyDB.Commands.Data.Writes
import TellyDB.Database.Doubles

/-!
Owns what `INCRBY` and `DECRBY` make of a number. The two are compared with the addition of
numbers, where a double is the rational that it denotes.
-/

namespace TellyDB.Commands.Data

open Resp Server Database.Keyspace
open TellyDB.Database (Scalar Table IsDouble doubleOf value_doubleOf)

/-! ## Numbers -/

/-- A number with its type. -/
inductive Number where
  | integer (number : Int)
  | double (number : ℚ)
deriving DecidableEq

namespace Number

def value : Number → ℚ
  | integer number => number
  | double number => number

def isInteger : Number → Bool
  | integer _ => true
  | double _ => false

/-- The negated number, of the same type. -/
def negated : Number → Number
  | integer number => integer (-number)
  | double number => double (-number)

/-- The sum, which is an integer only of two integers. -/
def plus : Number → Number → Number
  | integer first, integer second => integer (first + second)
  | first, second => double (first.value + second.value)

instance : Neg Number := ⟨negated⟩

instance : Add Number := ⟨plus⟩

@[simp] theorem neg_integer (number : Int) : -integer number = integer (-number) := rfl

@[simp] theorem neg_double (number : ℚ) : -double number = double (-number) := rfl

@[simp] theorem integer_add_integer (first second : Int) :
    integer first + integer second = integer (first + second) := rfl

@[simp] theorem double_add (first : ℚ) (second : Number) :
    double first + second = double (first + second.value) := by
  cases second <;> rfl

@[simp] theorem add_double (first : Number) (second : ℚ) :
    first + double second = double (first.value + second) := by
  cases first <;> rfl

@[simp] theorem value_integer (number : Int) : (integer number).value = number := rfl

@[simp] theorem value_double (number : ℚ) : (double number).value = number := rfl

theorem neg_neg (number : Number) : - -number = number := by
  cases number <;> simp

end Number

/-- The number that a value counts as. -/
def numberOf : Scalar → Option Number
  | .int number => some (.integer number)
  | .double number => some (.double number.value)
  | _ => none

/-- The number under a key, an absent one being 0; `none` is another type. -/
def numberUnder (found : Option KeyValue) : Option Number :=
  match found.map KeyValue.value with
  | none => some (.integer 0)
  | some (.scalar value) => numberOf value
  | some _ => none

theorem numberOf_injective {first second : Scalar} {number : Number}
    (left : numberOf first = some number) (right : numberOf second = some number) :
    first = second := by
  cases first with
  | int number =>
      cases left
      cases second with
      | int other =>
          cases right
          rfl
      | _ => cases right
  | double number =>
      cases left
      cases second with
      | double other =>
          have same := Number.double.inj (Option.some.inj right)
          rw [Database.Double.value_injective same]
      | _ => cases right
  | _ => cases left

/-! ## Literals -/

/-- The number that digits with a point denote. -/
def pointValue (digits : Bytes) : ℚ :=
  let whole := digits.takeWhile (· != 0x2e)
  let fraction := (digits.dropWhile (· != 0x2e)).tail
  decimalValue (whole ++ fraction) / 10 ^ fraction.length

/-- The number that a literal with a point denotes. -/
def doubleValue : Bytes → ℚ
  | 0x2d :: digits => -pointValue digits
  | digits => pointValue digits

/-- The number that a literal denotes; `none` is no literal of a number. -/
def literal (bytes : Bytes) : Option Number :=
  if isNumeral bytes then some (.integer (integerValue bytes))
  else if tryParseDouble ⟨bytes, []⟩ then some (.double (doubleValue bytes))
  else none

example : doubleValue (text "-12.50") = -25 / 2 := by
  decide +kernel

theorem literal_integer {bytes : Bytes} {number : Int}
    (denotes : literal bytes = some (.integer number)) :
    isNumeral bytes = true ∧ integerValue bytes = number := by
  rw [literal] at denotes
  split at denotes
  · next numeral => exact ⟨numeral, Number.integer.inj (Option.some.inj denotes)⟩
  · split at denotes <;> cases denotes

theorem literal_double {bytes : Bytes} {number : ℚ}
    (denotes : literal bytes = some (.double number)) :
    isNumeral bytes = false ∧ tryParseDouble ⟨bytes, []⟩ = true := by
  rw [literal] at denotes
  split at denotes
  · cases denotes
  · next numeral =>
      split at denotes
      · next double => exact ⟨Bool.eq_false_iff.mpr numeral, double⟩
      · cases denotes

/-! ## GMP -/

/-- The functions of GMP compute without a rounding wherever a double can hold the result. -/
structure ExactArithmetic (mpf : Mpf) : Prop where
  setZ : ∀ number : Int, IsDouble number → (mpf.setZ number).value = number
  neg : ∀ number, (mpf.neg number).value = -number.value
  add : ∀ first second, IsDouble (first.value + second.value) →
    (mpf.add first second).value = first.value + second.value
  sub : ∀ first second, IsDouble (first.value - second.value) →
    (mpf.sub first second).value = first.value - second.value

/-- Where a double occurs, doubles can hold the old number and the two new ones, so that nothing is
rounded. -/
structure Unrounded (mpf : Mpf) (old : Number) (first second : Argument) : Prop where
  held : IsDouble old.value
  sum : IsDouble (old.value + (mpf.setStr first.memory).value)
  difference : IsDouble (old.value - (mpf.setStr second.memory).value)

/-- GMP reads the number that the argument denotes, which the parser accepts: with an integer it
reads an integer, and else a double. -/
def Reads (mpf : Mpf) (input : Argument) : Number → Number → Prop
  | .integer _, .integer number =>
      IsInteger input.bytes ∧ input.Ends ∧ ReadAlone number input.following
  | .double _, .integer number =>
      IsInteger input.bytes ∧ input.Ends ∧ (mpf.setStr input.memory).value = number
  | _, .double number => (mpf.setStr input.memory).value = number

/-! ## New values -/

variable (mpf : Mpf)

/-- The argument is a number for the parser. -/
def AcceptedNumber (input : Argument) : Prop :=
  tryParseInteger input = true ∨ tryParseDouble input = true

instance (input : Argument) : Decidable (AcceptedNumber input) :=
  inferInstanceAs (Decidable (_ ∨ _))

/-- The value that `INCRBY` stores. -/
def incremented (input : Argument) (found : Option KeyValue) : Option Scalar :=
  match found.map KeyValue.value with
  | none => if tryParseInteger input then some (.int (mpzInitSetStr input.memory)) else none
  | some (.scalar (.int number)) =>
      some (if tryParseInteger input then .int (number + mpzInitSetStr input.memory)
        else .double (mpf.add (mpf.setStr input.memory) (mpf.setZ number)))
  | some (.scalar (.double number)) => some (.double (mpf.add number (mpf.setStr input.memory)))
  | some _ => none

/-- The value that `DECRBY` stores. -/
def decremented (input : Argument) (found : Option KeyValue) : Option Scalar :=
  match found.map KeyValue.value with
  | none =>
      some (if tryParseInteger input then .int (-mpzInitSetStr input.memory)
        else .double (mpf.neg (mpf.setStr input.memory)))
  | some (.scalar (.int number)) =>
      some (if tryParseInteger input then .int (number - mpzInitSetStr input.memory)
        else .double (mpf.neg (mpf.sub (mpf.setStr input.memory) (mpf.setZ number))))
  | some (.scalar (.double number)) => some (.double (mpf.sub number (mpf.setStr input.memory)))
  | some _ => none

/-- The new value under the key. -/
def storeNumber (data : Data) (key : Bytes) (found : Option KeyValue) (value : Scalar) : Data :=
  match found with
  | none => data.insert key ⟨.scalar value, none⟩
  | some kv => changeValue data key kv (.scalar value)

/-- What both commands do with the new value of a number. -/
def settle (data : Data) (key : Bytes) (found : Option KeyValue) (input : Argument)
    (new : Option Scalar) : Option (Data × Reply) :=
  if AcceptedNumber input then
    match new with
    | some value => (writeScalar value).map fun element =>
        (storeNumber data key found value, .element element)
    | none => some (data, .error "ERROR")
  else some (data, .error "Second argument must be an integer or double")

theorem get_storeNumber {data : Data} {key : Bytes} {found : Option KeyValue}
    (held : data.get key = found) (value : Scalar) (name : Bytes) :
    (storeNumber data key found value).get name =
      if key = name then some ⟨.scalar value, found.bind KeyValue.expiry⟩ else data.get name := by
  cases found with
  | none => exact get_insert_absent held _ _
  | some kv => exact get_changeValue held _ _

variable {mpf} {data after : Data} {key input : Argument} {protocol : ProtocolVersion}
  {permissions : Permissions} {found : Option KeyValue} {old number : Number}

theorem not_accepted (input : Argument) :
    (!tryParseInteger input && !tryParseDouble input) = true ↔ ¬AcceptedNumber input := by
  simp [AcceptedNumber]

/-- What a key that counts as a number holds. -/
theorem numberUnder_cases (counted : numberUnder found = some old) :
    found = none ∧ old = .integer 0 ∨
      (∃ number expiry, found = some ⟨.scalar (.int number), expiry⟩ ∧ old = .integer number) ∨
        ∃ number expiry, found = some ⟨.scalar (.double number), expiry⟩ ∧
          old = .double number.value := by
  cases found with
  | none =>
      cases counted
      exact .inl ⟨rfl, rfl⟩
  | some kv =>
      obtain ⟨value, expiry⟩ := kv
      cases value with
      | scalar value =>
          cases value with
          | int number =>
              cases counted
              exact .inr (.inl ⟨number, expiry, rfl, rfl⟩)
          | double number =>
              cases counted
              exact .inr (.inr ⟨number, expiry, rfl, rfl⟩)
          | _ => cases counted
      | _ => cases counted

theorem runIncrby_number (held : getData data key.bytes = found)
    (counted : numberUnder found = some old) :
    runIncrby mpf ⟨some protocol, [key, input], permissions⟩ data =
      settle data key.bytes found input (incremented mpf input found) := by
  simp only [runIncrby, settle]
  by_cases accepted : AcceptedNumber input
  · rw [if_neg (mt (not_accepted input).mp (not_not.mpr accepted)), if_pos accepted, held]
    obtain ⟨rfl, -⟩ | ⟨number, expiry, rfl, -⟩ | ⟨number, expiry, rfl, -⟩ :=
      numberUnder_cases counted
    · by_cases integer : tryParseInteger input = true
      · simp only [incremented, Option.map_none, integer, if_true]
        rfl
      · simp only [incremented, Option.map_none, integer]
        rfl
    · rfl
    · rfl
  · rw [if_pos ((not_accepted input).mpr accepted), if_neg accepted]
    rfl

theorem runDecrby_number (held : getData data key.bytes = found)
    (counted : numberUnder found = some old) :
    runDecrby mpf ⟨some protocol, [key, input], permissions⟩ data =
      settle data key.bytes found input (decremented mpf input found) := by
  simp only [runDecrby, settle]
  by_cases accepted : AcceptedNumber input
  · rw [if_neg (mt (not_accepted input).mp (not_not.mpr accepted)), if_pos accepted, held]
    obtain ⟨rfl, -⟩ | ⟨number, expiry, rfl, -⟩ | ⟨number, expiry, rfl, -⟩ :=
      numberUnder_cases counted <;> rfl
  · rw [if_pos ((not_accepted input).mpr accepted), if_neg accepted]
    rfl

/-! ## What is read -/

/-- The parser accepts a numeral that is an integer. -/
theorem accepted_integer_iff {value : Int} (denotes : literal input.bytes = some (.integer value)) :
    AcceptedNumber input ↔ tryParseInteger input = true := by
  have double := tryParseDouble_numeral input (literal_integer denotes).1
  simp [AcceptedNumber, double]

/-- The parser accepts a double, which is no integer. -/
theorem accepted_double {value : ℚ} (denotes : literal input.bytes = some (.double value)) :
    AcceptedNumber input ∧ ¬tryParseInteger input = true := by
  obtain ⟨numeral, double⟩ := literal_double denotes
  refine ⟨.inr double, fun integer => ?_⟩
  have isInteger := ((tryParseInteger_iff input).mp integer).1.isNumeral
  rw [isInteger] at numeral
  cases numeral

/-- The number that GMP reads: with an integer it reads an integer, and else a double. -/
def readNumber (mpf : Mpf) (input : Argument) (old : Number) : Number :=
  if tryParseInteger input = true ∧ old.isInteger = true then .integer (mpzInitSetStr input.memory)
  else .double (mpf.setStr input.memory).value

/-- The number that is read, and not another one, counts as the one that the argument denotes. -/
theorem reads_iff (denotes : literal input.bytes = some number) (accepted : AcceptedNumber input) :
    Reads mpf input old number ↔ old + readNumber mpf input old = old + number := by
  cases number with
  | integer value =>
      have integer := (accepted_integer_iff denotes).mp accepted
      obtain ⟨isInteger, ends⟩ := (tryParseInteger_iff input).mp integer
      have reads := mpzInitSetStr_integer_iff isInteger input.following
      rw [(literal_integer denotes).2] at reads
      cases old with
      | integer held =>
          rw [Reads, and_iff_right isInteger, and_iff_right ends, ← reads, readNumber,
            if_pos ⟨integer, rfl⟩]
          simp [Argument.memory]
      | double held =>
          rw [Reads, and_iff_right isInteger, and_iff_right ends, readNumber,
            if_neg (by simp [Number.isInteger])]
          simp
  | double value =>
      have double := (accepted_double denotes).2
      rw [readNumber, if_neg (by simp [double])]
      cases old <;> simp [Reads]

theorem add_eq_add_iff_neg (first second : Number) :
    old + -first = old + -second ↔ old + first = old + second := by
  cases old <;> cases first <;> cases second <;> simp

theorem Reads.accepted (denotes : literal input.bytes = some number)
    (reads : Reads mpf input old number) : AcceptedNumber input := by
  cases number with
  | integer value =>
      have integer : IsInteger input.bytes ∧ input.Ends := by
        cases old <;> exact ⟨reads.1, reads.2.1⟩
      exact .inl ((tryParseInteger_iff input).mpr integer)
  | double value => exact (accepted_double denotes).1

/-! ## Sums -/

/-- `INCRBY` adds the number that it reads, but stores no double under an absent key. -/
theorem numberOf_incremented (exact : ExactArithmetic mpf) (counted : numberUnder found = some old)
    (room : old.isInteger = false ∨ tryParseInteger input = false →
      IsDouble old.value ∧ IsDouble (old.value + (mpf.setStr input.memory).value)) :
    (incremented mpf input found).bind numberOf =
      if found = none ∧ tryParseInteger input = false then none
      else some (old + readNumber mpf input old) := by
  obtain ⟨rfl, rfl⟩ | ⟨held, expiry, rfl, rfl⟩ | ⟨held, expiry, rfl, rfl⟩ :=
    numberUnder_cases counted
  · cases integer : tryParseInteger input with
    | true => simp [incremented, integer, readNumber, Number.isInteger, numberOf]
    | false => simp [incremented, integer]
  · cases integer : tryParseInteger input with
    | true => simp [incremented, integer, readNumber, Number.isInteger, numberOf]
    | false =>
        obtain ⟨isDouble, sum⟩ := room (.inr integer)
        have operand : (mpf.setZ held).value = held := exact.setZ held isDouble
        rw [Number.value_integer, ← operand, add_comm] at sum
        have added := exact.add _ _ sum
        rw [operand, add_comm] at added
        simp [incremented, integer, readNumber, numberOf, added]
  · obtain ⟨_, sum⟩ := room (.inl rfl)
    have added := exact.add held (mpf.setStr input.memory) sum
    simp [incremented, readNumber, Number.isInteger, numberOf, added]

/-- `DECRBY` subtracts the number that it reads. -/
theorem numberOf_decremented (exact : ExactArithmetic mpf) (counted : numberUnder found = some old)
    (room : old.isInteger = false ∨ tryParseInteger input = false →
      IsDouble old.value ∧ IsDouble (old.value - (mpf.setStr input.memory).value)) :
    (decremented mpf input found).bind numberOf = some (old + -readNumber mpf input old) := by
  obtain ⟨rfl, rfl⟩ | ⟨held, expiry, rfl, rfl⟩ | ⟨held, expiry, rfl, rfl⟩ :=
    numberUnder_cases counted
  · cases integer : tryParseInteger input with
    | true => simp [decremented, integer, readNumber, Number.isInteger, numberOf]
    | false => simp [decremented, integer, readNumber, numberOf, exact.neg]
  · cases integer : tryParseInteger input with
    | true => simp [decremented, integer, readNumber, Number.isInteger, numberOf, sub_eq_add_neg]
    | false =>
        obtain ⟨isDouble, difference, same⟩ := room (.inr integer)
        have operand : (mpf.setZ held).value = held := exact.setZ held isDouble
        -- the subtraction is the other way round
        have opposite : IsDouble ((mpf.setStr input.memory).value - (mpf.setZ held).value) := by
          refine ⟨mpf.neg difference, ?_⟩
          rw [exact.neg, same, operand, Number.value_integer]
          ring
        have subtracted := exact.neg (mpf.sub (mpf.setStr input.memory) (mpf.setZ held))
        rw [exact.sub _ _ opposite, operand, neg_sub, sub_eq_add_neg] at subtracted
        simp [decremented, integer, readNumber, numberOf, subtracted]
  · obtain ⟨_, difference⟩ := room (.inl rfl)
    have subtracted := exact.sub held (mpf.setStr input.memory) difference
    rw [sub_eq_add_neg] at subtracted
    simp [decremented, readNumber, Number.isInteger, numberOf, subtracted]

/-- A reply of the new value says that it is stored. -/
theorem settle_eq_iff {value : Option Scalar} {new : Scalar} {element : Element}
    (written : writeScalar new = some element) {key : Bytes} :
    settle data key found input value = some (after, .element element) ↔
      AcceptedNumber input ∧ value = some new ∧ after = storeNumber data key found new := by
  have noError : ∀ message, element ≠ .error message := by
    rintro message rfl
    cases new <;> cases written
  rw [settle.eq_def]
  split
  · next accepted =>
      rw [and_iff_right accepted]
      cases value with
      | none =>
          refine iff_of_false (fun same => noError "ERROR" ?_) (by simp)
          exact (Reply.element.inj (Prod.mk.inj (Option.some.inj same)).2).symm
      | some other =>
          constructor
          · intro same
            obtain ⟨reply, replied, both⟩ := Option.map_eq_some_iff.mp same
            cases both
            cases writeScalar_injective written replied
            exact ⟨rfl, rfl⟩
          · rintro ⟨same, rfl⟩
            cases same
            dsimp only
            rw [written, Option.map_some]
  · next rejected =>
      refine iff_of_false (fun same => ?_) fun stored => rejected stored.1
      exact noError _ (Reply.element.inj (Prod.mk.inj (Option.some.inj same)).2).symm

theorem tryParseInteger_eq (denotes : literal input.bytes = some number)
    (accepted : AcceptedNumber input) : tryParseInteger input = number.isInteger := by
  cases number with
  | integer value => exact (accepted_integer_iff denotes).mp accepted
  | double value => exact Bool.eq_false_iff.mpr (accepted_double denotes).2

theorem increments_iff (exact : ExactArithmetic mpf) (counted : numberUnder found = some old)
    (denotes : literal input.bytes = some number)
    (room : old.isInteger = false ∨ number.isInteger = false →
      IsDouble old.value ∧ IsDouble (old.value + (mpf.setStr input.memory).value)) :
    AcceptedNumber input ∧ (incremented mpf input found).bind numberOf = some (old + number) ↔
      (found = none → number.isInteger = true) ∧ Reads mpf input old number := by
  by_cases accepted : AcceptedNumber input
  · have integer := tryParseInteger_eq denotes accepted
    rw [and_iff_right accepted, numberOf_incremented exact counted (by rwa [integer]), integer,
      reads_iff denotes accepted]
    split
    · next absent => simp [absent.1, absent.2]
    · next stored =>
        have known : found = none → number.isInteger = true :=
          fun absent => Bool.of_not_eq_false fun double => stored ⟨absent, double⟩
        rw [and_iff_right known, Option.some_inj]
  · exact iff_of_false (fun both => accepted both.1) fun both => accepted (both.2.accepted denotes)

theorem decrements_iff (exact : ExactArithmetic mpf) (counted : numberUnder found = some old)
    (denotes : literal input.bytes = some number)
    (room : old.isInteger = false ∨ number.isInteger = false →
      IsDouble old.value ∧ IsDouble (old.value - (mpf.setStr input.memory).value)) :
    AcceptedNumber input ∧ (decremented mpf input found).bind numberOf = some (old + -number) ↔
      Reads mpf input old number := by
  by_cases accepted : AcceptedNumber input
  · have integer := tryParseInteger_eq denotes accepted
    rw [and_iff_right accepted, numberOf_decremented exact counted (by rwa [integer]),
      reads_iff denotes accepted, Option.some_inj, add_eq_add_iff_neg]
  · exact iff_of_false (fun both => accepted both.1) fun reads => accepted (reads.accepted denotes)

/-! ## The two commands -/

/-- A command with a key and a number. -/
def numberEntry (protocol : ProtocolVersion) (permissions : Permissions) (key input : Argument) :
    Entry := ⟨some protocol, [key, input], permissions⟩

/-- `INCRBY` with `input` and `DECRBY` with `opposite` do the same: the key counts a number more,
which is the reply, and `DECRBY` with `again` takes an integer back. A key of another type stays as
it is. -/
structure MirrorImages (mpf : Mpf) (protocol : ProtocolVersion) (permissions : Permissions)
    (data : Data) (key input opposite again : Argument) (number : Number) : Prop where
  mirror : numberUnder (getData data key.bytes) ≠ none →
    runIncrby mpf (numberEntry protocol permissions key input) data =
      runDecrby mpf (numberEntry protocol permissions key opposite) data
  sum : ∀ old, numberUnder (getData data key.bytes) = some old → ∃ after element new,
    runIncrby mpf (numberEntry protocol permissions key input) data =
        some (after, .element element) ∧
      numberOf new = some (old + number) ∧ writeScalar new = some element ∧
      ∀ name, after.get name =
        if key.bytes = name then
          some ⟨.scalar new, (getData data key.bytes).bind KeyValue.expiry⟩
        else data.get name
  restores : ∀ held added, numberUnder (getData data key.bytes) = some (.integer held) →
    number = .integer added → ∃ middle reply after,
      runIncrby mpf (numberEntry protocol permissions key input) data = some (middle, reply) ∧
        runDecrby mpf (numberEntry protocol permissions key again) middle =
          some (after, .element (.int held)) ∧
        after.get key.bytes =
          some ⟨.scalar (.int held), (getData data key.bytes).bind KeyValue.expiry⟩
  other : numberUnder (getData data key.bytes) = none →
    (∃ reply, runIncrby mpf (numberEntry protocol permissions key input) data =
        some (data, reply)) ∧
      ∃ reply, runDecrby mpf (numberEntry protocol permissions key opposite) data =
        some (data, reply)

/-- The key holds another type, or GMP reads the three numbers and the key is there for a double. -/
def ReadsAll (mpf : Mpf) (found : Option KeyValue) (input opposite again : Argument)
    (number : Number) : Prop :=
  ∀ old, numberUnder found = some old →
    (found = none → number.isInteger = true) ∧ Reads mpf input old number ∧
      Reads mpf opposite old (-number) ∧
      (old.isInteger = true → number.isInteger = true → Reads mpf again old number)

variable {opposite again : Argument} {new : Scalar} {element : Element}

theorem writeScalar_number (numbered : numberOf new = some number) :
    ∃ element, writeScalar new = some element := by
  apply writeScalar_isSome
  rintro rfl
  cases numbered

/-- One value is the number. -/
theorem bind_numberOf_iff (numbered : numberOf new = some number) {value : Option Scalar} :
    value.bind numberOf = some number ↔ value = some new := by
  constructor
  · intro same
    obtain ⟨other, rfl, otherNumbered⟩ := Option.bind_eq_some_iff.mp same
    rw [numberOf_injective otherNumbered numbered]
  · rintro rfl
    exact numbered

/-- `INCRBY` replies with the sum exactly when it reads the number and stores the sum. -/
theorem incrby_stores_iff (exact : ExactArithmetic mpf) (held : getData data key.bytes = found)
    (counted : numberUnder found = some old) (denotes : literal input.bytes = some number)
    (room : old.isInteger = false ∨ number.isInteger = false →
      IsDouble old.value ∧ IsDouble (old.value + (mpf.setStr input.memory).value))
    (numbered : numberOf new = some (old + number)) (written : writeScalar new = some element) :
    runIncrby mpf (numberEntry protocol permissions key input) data =
        some (after, .element element) ↔
      ((found = none → number.isInteger = true) ∧ Reads mpf input old number) ∧
        after = storeNumber data key.bytes found new := by
  rw [numberEntry, runIncrby_number held counted, settle_eq_iff written, ← and_assoc,
    ← bind_numberOf_iff numbered, increments_iff exact counted denotes room]

/-- `DECRBY` replies with the difference exactly when it reads the number, and stores it. -/
theorem decrby_stores_iff (exact : ExactArithmetic mpf) (held : getData data key.bytes = found)
    (counted : numberUnder found = some old) (denotes : literal input.bytes = some number)
    (room : old.isInteger = false ∨ number.isInteger = false →
      IsDouble old.value ∧ IsDouble (old.value - (mpf.setStr input.memory).value))
    (numbered : numberOf new = some (old + -number)) (written : writeScalar new = some element) :
    runDecrby mpf (numberEntry protocol permissions key input) data =
        some (after, .element element) ↔
      Reads mpf input old number ∧ after = storeNumber data key.bytes found new := by
  rw [numberEntry, runDecrby_number held counted, settle_eq_iff written, ← and_assoc,
    ← bind_numberOf_iff numbered, decrements_iff exact counted denotes room]

/-- `DECRBY` takes an integer back exactly when it reads it. -/
theorem decrby_restores_iff (exact : ExactArithmetic mpf) {before added : Int}
    {expiry : Option Nat}
    (held : getData data key.bytes = some ⟨.scalar (.int (before + added)), expiry⟩)
    (denotes : literal input.bytes = some (.integer added)) :
    runDecrby mpf (numberEntry protocol permissions key input) data =
        some (after, .element (.int before)) ↔
      Reads mpf input (.integer before) (.integer added) ∧
        after = storeNumber data key.bytes
          (some ⟨.scalar (.int (before + added)), expiry⟩) (.int before) := by
  have counted : numberUnder (some ⟨.scalar (.int (before + added)), expiry⟩) =
      some (.integer (before + added)) := rfl
  have numbered : numberOf (.int before) =
      some (Number.integer (before + added) + -Number.integer added) := by simp [numberOf]
  exact (decrby_stores_iff exact held counted denotes (by simp [Number.isInteger]) numbered
    rfl).trans Iff.rfl

/-- A key of another type stays as it is. -/
theorem other_unchanged (held : getData data key.bytes = found)
    (other : numberUnder found = none) :
    (∃ reply, runIncrby mpf (numberEntry protocol permissions key input) data =
        some (data, reply)) ∧
      ∃ reply, runDecrby mpf (numberEntry protocol permissions key opposite) data =
        some (data, reply) := by
  cases found with
  | none => cases other
  | some kv =>
      obtain ⟨value, expiry⟩ := kv
      simp only [numberEntry, runIncrby, runDecrby, held]
      cases value with
      | scalar value =>
          cases value with
          | int => cases other
          | double => cases other
          | _ => constructor <;> split <;> exact ⟨_, rfl⟩
      | _ => constructor <;> split <;> exact ⟨_, rfl⟩

/-! ## Mirror images -/

section Mirror

variable (exact : ExactArithmetic mpf) (denotes : literal input.bytes = some number)
  (denotesOpposite : literal opposite.bytes = some (-number))
  (denotesAgain : literal again.bytes = some number)
  (room : ∀ old, numberUnder (getData data key.bytes) = some old →
    old.isInteger = false ∨ number.isInteger = false → Unrounded mpf old input opposite)

theorem Unrounded.sums {old : Number}
    (room : old.isInteger = false ∨ number.isInteger = false → Unrounded mpf old input opposite)
    (double : old.isInteger = false ∨ number.isInteger = false) :
    IsDouble old.value ∧ IsDouble (old.value + (mpf.setStr input.memory).value) :=
  ⟨(room double).held, (room double).sum⟩

theorem Unrounded.differences {old : Number}
    (room : old.isInteger = false ∨ number.isInteger = false → Unrounded mpf old input opposite)
    (double : old.isInteger = false ∨ (-number).isInteger = false) :
    IsDouble old.value ∧ IsDouble (old.value - (mpf.setStr opposite.memory).value) := by
  have sign : (-number).isInteger = number.isInteger := by cases number <;> rfl
  rw [sign] at double
  exact ⟨(room double).held, (room double).difference⟩

include exact denotes denotesOpposite denotesAgain room

theorem reads_of_mirror
    (mirrors : MirrorImages mpf protocol permissions data key input opposite again number) :
    ReadsAll mpf (getData data key.bytes) input opposite again number := by
  intro old counted
  obtain ⟨after, element, new, ran, numbered, written, gets⟩ := mirrors.sum old counted
  have numberedOpposite : numberOf new = some (old + - -number) := by rwa [Number.neg_neg]
  have ranOpposite := (mirrors.mirror (by simp [counted])).symm.trans ran
  obtain ⟨⟨present, reads⟩, _⟩ := (incrby_stores_iff exact rfl counted denotes
    (Unrounded.sums (room old counted)) numbered written).mp ran
  obtain ⟨readsOpposite, _⟩ := (decrby_stores_iff exact rfl counted denotesOpposite
    (Unrounded.differences (room old counted)) numberedOpposite written).mp ranOpposite
  refine ⟨present, reads, readsOpposite, fun integer addsInteger => ?_⟩
  cases old with
  | double => cases integer
  | integer held =>
      cases number with
      | double => cases addsInteger
      | integer added =>
          obtain ⟨middle, reply, last, first, second, _⟩ := mirrors.restores held added counted rfl
          cases first.symm.trans ran
          cases numberOf_injective numbered (rfl : numberOf (.int (held + added)) = _)
          have between := (gets key.bytes).trans (if_pos rfl)
          exact ((decrby_restores_iff exact between denotesAgain).mp second).1

theorem mirror_of_reads
    (reads : ReadsAll mpf (getData data key.bytes) input opposite again number) :
    MirrorImages mpf protocol permissions data key input opposite again number := by
  have stores : ∀ old, numberUnder (getData data key.bytes) = some old → ∃ new element,
      numberOf new = some (old + number) ∧ writeScalar new = some element ∧
        runIncrby mpf (numberEntry protocol permissions key input) data =
          some (storeNumber data key.bytes (getData data key.bytes) new, .element element) := by
    intro old counted
    obtain ⟨present, readsInput, _, _⟩ := reads old counted
    have sums := Unrounded.sums (room old counted)
    obtain ⟨_, sum⟩ := (increments_iff exact counted denotes sums).mpr ⟨present, readsInput⟩
    obtain ⟨new, _, numbered⟩ := Option.bind_eq_some_iff.mp sum
    obtain ⟨element, written⟩ := writeScalar_number numbered
    exact ⟨new, element, numbered, written, (incrby_stores_iff exact rfl counted denotes sums
      numbered written).mpr ⟨⟨present, readsInput⟩, rfl⟩⟩
  constructor
  · intro some_
    obtain ⟨old, counted⟩ := Option.ne_none_iff_exists'.mp some_
    obtain ⟨new, element, numbered, written, ran⟩ := stores old counted
    have numberedOpposite : numberOf new = some (old + - -number) := by rwa [Number.neg_neg]
    refine ran.trans (Eq.symm ?_)
    exact (decrby_stores_iff exact rfl counted denotesOpposite
      (Unrounded.differences (room old counted)) numberedOpposite written).mpr
        ⟨(reads old counted).2.2.1, rfl⟩
  · intro old counted
    obtain ⟨new, element, numbered, written, ran⟩ := stores old counted
    exact ⟨_, element, new, ran, numbered, written, get_storeNumber rfl new⟩
  · rintro held added counted rfl
    obtain ⟨new, element, numbered, _, ran⟩ := stores _ counted
    cases numberOf_injective numbered (rfl : numberOf (.int (held + added)) = _)
    have between : getData (storeNumber data key.bytes (getData data key.bytes)
        (.int (held + added))) key.bytes = _ :=
      (get_storeNumber rfl _ key.bytes).trans (if_pos rfl)
    refine ⟨_, _, _, ran, (decrby_restores_iff exact between denotesAgain).mpr
      ⟨(reads _ counted).2.2.2 rfl rfl, rfl⟩, ?_⟩
    exact (get_storeNumber between (.int held) key.bytes).trans (if_pos rfl)
  · exact fun other => other_unchanged rfl other

end Mirror

/-- `INCRBY` and `DECRBY` are mirror images exactly when the numbers are read and no double is
added to an absent key. -/
theorem incrby_mirrors_iff {mpf : Mpf} (exact : ExactArithmetic mpf) (protocol : ProtocolVersion)
    (permissions : Permissions) {data : Data} {key input opposite again : Argument}
    {number : Number} (denotes : literal input.bytes = some number)
    (denotesOpposite : literal opposite.bytes = some (-number))
    (denotesAgain : literal again.bytes = some number)
    (room : ∀ old, numberUnder (getData data key.bytes) = some old →
      old.isInteger = false ∨ number.isInteger = false → Unrounded mpf old input opposite) :
    MirrorImages mpf protocol permissions data key input opposite again number ↔
      ReadsAll mpf (getData data key.bytes) input opposite again number :=
  ⟨reads_of_mirror exact denotes denotesOpposite denotesAgain room,
    mirror_of_reads exact denotes denotesOpposite denotesAgain room⟩

/-! ## One and a half -/

/-- GMP where nothing is rounded. -/
noncomputable def exactMpf : Mpf :=
  let zero := Mpf.unused.setZ 0
  { setStr := fun memory => doubleOf (doubleValue (cString memory)) zero
    setZ := fun number => doubleOf number zero
    neg := fun number => doubleOf (-number.value) zero
    add := fun first second => doubleOf (first.value + second.value) zero
    sub := fun first second => doubleOf (first.value - second.value) zero
    addUi := fun number count => doubleOf (number.value + count) zero
    subUi := fun number count => doubleOf (number.value - count) zero }

theorem exactMpf_exact : ExactArithmetic exactMpf where
  setZ _ holds := value_doubleOf holds _
  neg number := value_doubleOf (IsDouble.neg ⟨number, rfl⟩) _
  add _ _ holds := value_doubleOf holds _
  sub _ _ holds := value_doubleOf holds _

/-- An argument with a NUL behind it. -/
def terminated (string : String) : Argument := ⟨text string, [0]⟩

/-- The integer 1 lies under `k`. -/
def oneDatabase : Data :=
  (Table.create 16 capacity_positive).insert (text "k") ⟨.scalar (.int 1), none⟩

theorem oneDatabase_held : getData oneDatabase (text "k") = some ⟨.scalar (.int 1), none⟩ := by
  rw [getData, oneDatabase, Table.get_insert, Table.get_create, if_pos rfl, Option.none_or]

theorem isDouble_examples : IsDouble 1 ∧ IsDouble (3 / 2) ∧ IsDouble (5 / 2) := by
  refine ⟨⟨⟨false, [1], 1, by decide, by decide, by decide, by decide⟩, ?_⟩,
    ⟨⟨false, [1, 8], 1, by decide, by decide, by decide, by decide⟩, ?_⟩,
    ⟨⟨false, [2, 8], 1, by decide, by decide, by decide, by decide⟩, ?_⟩⟩ <;>
  decide +kernel

theorem setStr_examples : (exactMpf.setStr (terminated "1.5").memory).value = 3 / 2 ∧
    (exactMpf.setStr (terminated "-1.5").memory).value = -(3 / 2) := by
  have positive : doubleValue (cString (terminated "1.5").memory) = 3 / 2 := by decide +kernel
  have negative : doubleValue (cString (terminated "-1.5").memory) = -(3 / 2) := by decide +kernel
  obtain ⟨_, oneAndHalf, _⟩ := isDouble_examples
  constructor
  · rw [← positive] at oneAndHalf ⊢
    exact value_doubleOf oneAndHalf _
  · replace oneAndHalf := oneAndHalf.neg
    rw [← negative] at oneAndHalf ⊢
    exact value_doubleOf oneAndHalf _

/-- INCRBY k 1.5 and DECRBY k -1.5 where k is 1. -/
theorem incrby_mirrors_one_and_half :
    MirrorImages exactMpf .resp3 Permission.all oneDatabase (terminated "k") (terminated "1.5")
      (terminated "-1.5") (terminated "1.5") (.double (3 / 2)) := by
  obtain ⟨one, _, twoAndHalf⟩ := isDouble_examples
  obtain ⟨positive, negative⟩ := setStr_examples
  refine (incrby_mirrors_iff exactMpf_exact .resp3 Permission.all (by decide +kernel)
    (by decide +kernel) (by decide +kernel) ?_).mpr ?_
  · intro old counted _
    rw [terminated, oneDatabase_held] at counted
    cases counted
    constructor
    · simpa using one
    · rw [positive]
      norm_num
      exact twoAndHalf
    · rw [negative]
      norm_num
      exact twoAndHalf
  · intro old counted
    rw [terminated, oneDatabase_held] at counted
    cases counted
    refine ⟨?_, positive, negative, ?_⟩
    · rw [terminated, oneDatabase_held]
      rintro ⟨⟩
    · rintro _ ⟨⟩

/-- INCRBY k 1.5 of an absent key is an error, and DECRBY k -1.5 is not. -/
theorem incrby_mirrors_fails_when_absent :
    literal (text "1.5") = some (.double (3 / 2)) ∧
      ¬∃ mpf, MirrorImages mpf .resp3 Permission.all (Table.create 16 capacity_positive)
        (terminated "k") (terminated "1.5") (terminated "-1.5") (terminated "1.5")
        (.double (3 / 2)) := by
  refine ⟨by decide +kernel, ?_⟩
  rintro ⟨mpf, mirrors⟩
  have absent : getData (Table.create 16 capacity_positive) (terminated "k").bytes = none :=
    Table.get_create ..
  have counted : numberUnder (getData (Table.create 16 capacity_positive)
      (terminated "k").bytes) = some (.integer 0) := by
    rw [absent]
    rfl
  obtain ⟨after, element, new, ran, _, written, _⟩ := mirrors.sum _ counted
  obtain ⟨_, stored, _⟩ := (settle_eq_iff written).mp
    ((runIncrby_number absent rfl).symm.trans ran)
  have noInteger : tryParseInteger (terminated "1.5") = false := by decide
  simp [incremented, noInteger] at stored

end TellyDB.Commands.Data
