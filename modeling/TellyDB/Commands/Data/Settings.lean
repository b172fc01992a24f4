import TellyDB.Commands.Data.Ranges
import TellyDB.Commands.Data.Unread

/-!
Owns what `SET` does behind its options: the typed value it makes of its input, and when it
refuses, stores and replies as its options ask.
-/

namespace TellyDB.Commands.Data

open Resp Server Database.Keyspace
open TellyDB.Database (Scalar Table TellyType)

/-! ## Typed values -/

/-- The type that `SET` gives its input without `AS`. -/
def inferredType (input : Argument) : TellyType :=
  if tryParseInteger input then .int
  else if tryParseDouble input then .double
  else if input.sstreq "true" || input.sstreq "false" then .bool
  else if input.sstreq "null" then .null
  else .str

/-- The input as a value of a type. -/
def valueAs (mpf : Mpf) (input : Argument) : TellyType → Scalar
  | .int => .int (mpzInitSetStr (input.bytes ++ [0]))
  | .double => .double (mpf.setStr (input.bytes ++ [0]))
  | .bool => .bool (input.sstreq "true")
  | .null => .null
  | .str => .str input.bytes
  | .unknown | .hashtable | .list => .unknown

/-- The response that the options leave: without `AS` nothing is known of the input, and behind
a valid `AS` its type. -/
inductive Parsed (input : Argument) : Bool → Response → Prop where
  | inferred : Parsed input false (unparsed input)
  | typed {name : Argument} {response : Response}
      (valid : parseAsOption name (unparsed input) = (.validOptions, response)) :
      Parsed input true response

/-- The value that `SET` is asked to store. -/
def typedValue (mpf : Mpf) (input : Argument) (as : Bool) (type : TellyType) : Scalar :=
  valueAs mpf input (if as then type else inferredType input)

variable {mpf : Mpf} {input : Argument} {options : Options} {response : Response}

/-- `AS` names no collection. -/
theorem namedType_scalar (name : Argument) :
    namedType name .unknown ≠ .hashtable ∧ namedType name .unknown ≠ .list := by
  rw [namedType]
  cases found : typeNames.find? fun identifier => identifier.2.any name.streq with
  | none => simp
  | some identifier =>
      have member := List.mem_of_find?_eq_some found
      simp only [typeNames, List.mem_cons, List.not_mem_nil, or_false] at member
      rcases member with rfl | rfl | rfl | rfl | rfl | rfl <;> simp

theorem setValue_inferred (plain : options.as = false) :
    storedScalar (setValue mpf options (unparsed input)) =
      some (valueAs mpf input (inferredType input)) := by
  simp only [setValue, plain, Bool.false_eq_true, ↓reduceIte, unparsed, inferredType]
  by_cases integer : tryParseInteger input = true
  · simp [integer, storedScalar, valueAs, Scalar.type]
  · by_cases double : tryParseDouble input = true
    · simp [integer, double, storedScalar, valueAs, Scalar.type]
    · by_cases boolean : (input.sstreq "true" || input.sstreq "false") = true
      · simp [integer, double, boolean, storedScalar, valueAs, Scalar.type]
      · by_cases null : input.sstreq "null" = true
        · simp [integer, double, boolean, null, storedScalar, valueAs]
        · simp [integer, double, boolean, null, storedScalar, valueAs, Scalar.type]

/-- Behind a valid `AS`, what is known of the input is enough for a value of its type. -/
theorem setValue_typed (as : options.as = true) {name : Argument}
    (valid : parseAsOption name (unparsed input) = (.validOptions, response)) :
    storedScalar (setValue mpf options response) = some (valueAs mpf input response.type) := by
  have scalar := namedType_scalar name
  rw [parseAsOption] at valid
  simp only [unparsed] at valid
  cases named : namedType name .unknown with
  | hashtable => exact absurd named scalar.1
  | list => exact absurd named scalar.2
  | unknown =>
      simp only [named, takeAsNumber] at valid
      split at valid
      · by_cases integer : tryParseInteger input = true
        · simp only [integer, if_true, reduceCtorEq, if_false] at valid
          cases valid
          simp [setValue, as, storedScalar, valueAs, Scalar.type]
        · by_cases double : tryParseDouble input = true
          · simp only [integer, double, if_true, reduceCtorEq, if_false] at valid
            cases valid
            simp [setValue, as, storedScalar, valueAs, Scalar.type]
          · simp [integer, double] at valid
      · cases valid
  | int =>
      simp only [named] at valid
      split at valid
      · next integer =>
          cases valid
          simp [setValue, as, integer, storedScalar, valueAs, Scalar.type]
      · cases valid
  | double =>
      simp only [named] at valid
      split at valid
      · next double =>
          cases valid
          simp [setValue, as, double, storedScalar, valueAs, Scalar.type]
      · cases valid
  | bool =>
      simp only [named] at valid
      split at valid
      · cases valid
      · next boolean =>
          cases valid
          have either : (input.sstreq "true" || input.sstreq "false") = true := by
            simpa [or_iff_not_imp_left] using boolean
          simp [setValue, as, either, storedScalar, valueAs, Scalar.type]
  | str =>
      simp only [named] at valid
      cases valid
      simp only [setValue, as, Bool.or_self, Bool.false_eq_true, ↓reduceIte]
      split_ifs <;> rfl
  | null =>
      simp only [named] at valid
      cases valid
      simp only [setValue, as, Bool.or_self, Bool.false_eq_true, ↓reduceIte]
      split_ifs <;> rfl

theorem setValue_parsed (parsed : Parsed input options.as response) :
    storedScalar (setValue mpf options response) =
      some (typedValue mpf input options.as response.type) := by
  rw [typedValue]
  cases as : options.as with
  | false =>
      rw [as] at parsed
      cases parsed
      exact setValue_inferred as
  | true =>
      rw [as] at parsed
      cases parsed with
      | typed valid => exact setValue_typed as valid

/-! ## What the options ask for -/

section Asked

variable (mpf : Mpf) (options : Options) (response : Response) (key : Argument) (entry : Entry)
  (data : Data)

/-- `NX` with a key that exists, or `XX` with one that does not. -/
def Excluded : Prop :=
  options.nx = true ∧ (data.get key.bytes).isSome = true ∨
    options.xx = true ∧ data.get key.bytes = none

/-- `GET` from a client without `P_READ`. -/
def Denied : Prop := options.get = true ∧ entry.permissions &&& Permission.read = 0

/-- The reply of a `SET` that stores: what the key held before where `GET` asks for it. -/
def askedReply : Option Reply :=
  match entry.client, options.get, data.get key.bytes with
  | none, _, _ => some .empty
  | some _, false, _ => some .ok
  | some _, true, none => some .null
  | some _, true, some kv => (writeValue kv.value).map .element

/-- `SET` does what its options ask for. -/
structure SetsAsAsked : Prop where
  excluded : Excluded options key data →
    runSetWith mpf options response key entry data = some (data, entry.answer .null)
  denied : ¬Excluded options key data → Denied options entry →
    runSetWith mpf options response key entry data =
      some (data, entry.answer (.error "Not allowed to use this command, need P_READ"))
  stored : ¬Excluded options key data → ¬Denied options entry → ∃ after reply,
    askedReply options key entry data = some reply ∧
      runSetWith mpf options response key entry data = some (after, reply) ∧
      after.get key.bytes = some
        ⟨.scalar (typedValue mpf response.input options.as response.type), options.expiry⟩ ∧
      ∀ name, name ≠ key.bytes → after.get name = data.get name

/-- Where `SET` stores, the old value can be freed, and a client that asks with `GET` for the
value of a key that exists stores that same value. -/
def StoresAsAsked : Prop :=
  ¬Excluded options key data → ¬Denied options entry →
    Freeable data key ∧
      (options.get = true → entry.client ≠ none → ∀ kv, data.get key.bytes = some kv →
        kv.value = .scalar (typedValue mpf response.input options.as response.type))

end Asked

variable {key : Argument} {entry : Entry} {data : Data}

theorem set_excluded (excluded : Excluded options key data) :
    runSetWith mpf options response key entry data = some (data, entry.answer .null) := by
  rcases excluded with ⟨nx, held⟩ | ⟨xx, absent⟩
  · simp [runSetWith, getData, nx, held]
  · simp [runSetWith, getData, xx, absent]

/-- The two returns before the value is made are not taken. -/
theorem included_iff : ¬Excluded options key data ↔
    (options.nx && (data.get key.bytes).isSome) = false ∧
      (options.xx && (data.get key.bytes).isNone) = false := by
  rw [Excluded, not_or]
  cases data.get key.bytes <;> simp

theorem set_denied (included : ¬Excluded options key data) (denied : Denied options entry) :
    runSetWith mpf options response key entry data =
      some (data, entry.answer (.error "Not allowed to use this command, need P_READ")) := by
  obtain ⟨nx, xx⟩ := included_iff.mp included
  simp [runSetWith, getData, nx, xx, denied.1, denied.2]

/-- What it replies where it stores: with `GET` the value that was just stored. -/
def storedReply (options : Options) (key : Argument) (entry : Entry) (data : Data)
    (value : Scalar) : Option Reply :=
  match entry.client, options.get, data.get key.bytes with
  | none, _, _ => some .empty
  | some _, false, _ => some .ok
  | some _, true, none => some .null
  | some _, true, some _ => (writeScalar value).map .element

theorem set_stores (included : ¬Excluded options key data) (allowed : ¬Denied options entry)
    {value : Scalar} (typed : storedScalar (setValue mpf options response) = some value) :
    runSetWith mpf options response key entry data =
      (setData data (data.get key.bytes) key.bytes (.scalar value) options.expiry).bind
        fun after => (storedReply options key entry data value).map fun reply =>
          (after, reply) := by
  obtain ⟨nx, xx⟩ := included_iff.mp included
  simp only [runSetWith, getData, nx, xx, Bool.false_eq_true, ↓reduceIte, typed, storedReply]
  cases get : options.get with
  | false =>
      cases client : entry.client <;> simp [Entry.answer, client]
  | true =>
      have reads : entry.permissions &&& Permission.read ≠ 0 := fun lacks => allowed ⟨get, lacks⟩
      rw [if_pos rfl, if_neg reads]
      cases data.get key.bytes with
      | none => cases client : entry.client <;> simp [Entry.answer, client]
      | some kv =>
          cases client : entry.client with
          | none => simp [replyStored, client]
          | some protocol =>
              simp [replyStored, client, Option.map_map]
              rfl

theorem setValue_known : (setValue mpf options response).2 ≠ some .unknown := by
  rw [setValue]
  dsimp only
  split_ifs <;> cases response.type <;> simp

theorem storedScalar_known {value : Scalar}
    (stored : storedScalar (setValue mpf options response) = some value) : value ≠ .unknown := by
  have known := @setValue_known mpf options response
  rw [storedScalar.eq_def] at stored
  split at stored
  · cases stored
    exact Scalar.noConfusion
  · cases stored
  · next read =>
      split at stored
      · cases stored
        rw [read] at known
        exact fun unknown => known (congrArg some unknown)
      · cases stored

/-- Only the value itself is written as a scalar is. -/
theorem writeValue_scalar {value : Value} {scalar : Scalar} {element : Element}
    (first : writeValue value = some element) (second : writeScalar scalar = some element) :
    value = .scalar scalar := by
  cases value with
  | scalar other => rw [writeScalar_injective first second]
  | hashtable table =>
      cases first
      cases scalar <;> simp [writeScalar] at second
  | list list =>
      cases first
      cases scalar <;> simp [writeScalar] at second

/-- The stored value is what `GET` asks for only where it was held before. -/
theorem storedReply_asked_iff {value : Scalar} (known : value ≠ .unknown) :
    (∃ reply, askedReply options key entry data = some reply ∧
        storedReply options key entry data value = some reply) ↔
      (options.get = true → entry.client ≠ none → ∀ kv, data.get key.bytes = some kv →
        kv.value = .scalar value) := by
  obtain ⟨element, written⟩ := writeScalar_isSome known
  rw [askedReply, storedReply]
  cases client : entry.client with
  | none => simp
  | some protocol =>
      cases get : options.get with
      | false => simp
      | true =>
          cases held : data.get key.bytes with
          | none => simp
          | some kv =>
              constructor
              · rintro ⟨reply, asked, stored⟩ _ _ _ same
                cases same
                rw [written, Option.map_some, Option.some_inj] at stored
                obtain ⟨old, writtenOld, same⟩ := Option.map_eq_some_iff.mp asked
                cases same.trans stored.symm
                exact writeValue_scalar writtenOld written
              · intro same
                have held := same rfl (by simp) kv rfl
                refine ⟨.element element, ?_, ?_⟩
                · simp [held, writeValue, written]
                · simp [written]

/-- `SET` does as asked exactly where it stores as asked. -/
theorem set_asked_iff (parsed : Parsed response.input options.as response) (key : Argument)
    (entry : Entry) (data : Data) :
    SetsAsAsked mpf options response key entry data ↔
      StoresAsAsked mpf options response key entry data := by
  have typed : storedScalar (setValue mpf options response) =
      some (typedValue mpf response.input options.as response.type) := setValue_parsed parsed
  have known := storedScalar_known typed
  constructor
  · intro asked included allowed
    obtain ⟨after, reply, replied, ran, _, _⟩ := asked.stored included allowed
    rw [set_stores included allowed typed, Option.bind_eq_some_iff] at ran
    obtain ⟨changed, set, mapped⟩ := ran
    obtain ⟨other, stored, same⟩ := Option.map_eq_some_iff.mp mapped
    cases same
    have freed : (setData data (data.get key.bytes) key.bytes _ _).isSome :=
      Option.isSome_of_eq_some set
    exact ⟨(setData_isSome _ _).mp freed, (storedReply_asked_iff known).mp ⟨_, replied, stored⟩⟩
  · intro stores
    refine ⟨set_excluded, set_denied, fun included allowed => ?_⟩
    obtain ⟨freeable, same⟩ := stores included allowed
    obtain ⟨after, set⟩ := Option.isSome_iff_exists.mp ((setData_isSome
      (.scalar (typedValue mpf response.input options.as response.type)) options.expiry).mpr
        freeable)
    obtain ⟨reply, replied, stored⟩ := (storedReply_asked_iff known).mpr same
    refine ⟨after, reply, replied, ?_, ?_, fun name other => ?_⟩
    · rw [set_stores included allowed typed, set, Option.bind_some, stored, Option.map_some]
    · rw [get_setData set, if_pos rfl]
    · rw [get_setData set, if_neg other.symm]

/-- The key `k` holds 1. -/
def numberDatabase : Data :=
  (Table.create 16 capacity_positive).insert (text "k") ⟨.scalar (.int 1), some 5⟩

/-- SET k 2, from a client that may do everything. -/
def setEntry : Entry := ⟨some .resp3, [⟨text "k", []⟩, ⟨text "2", []⟩], Permission.all⟩

theorem numberDatabase_held (name : Bytes) : numberDatabase.get name =
    if text "k" = name then some ⟨.scalar (.int 1), some 5⟩ else none := by
  rw [numberDatabase, get_insert_absent (Table.get_create ..), Table.get_create]

/-- SET k 2 XX, with an expiry. -/
theorem set_asked_number : SetsAsAsked Mpf.unused ⟨false, false, true, false, some 9⟩
    (unparsed ⟨text "2", []⟩) ⟨text "k", []⟩ setEntry numberDatabase := by
  apply (set_asked_iff .inferred _ _ _).mpr
  intro included allowed
  constructor
  · intro list expiry held
    rw [numberDatabase_held, if_pos rfl] at held
    cases held
  · exact nofun

/-- SET k 2 GET replies with 2. -/
theorem set_asked_fails_for_get : ¬SetsAsAsked Mpf.unused ⟨true, false, false, false, none⟩
    (unparsed ⟨text "2", []⟩) ⟨text "k", []⟩ setEntry numberDatabase := by
  intro asked
  obtain ⟨after, reply, replied, ran, _⟩ := asked.stored
    (by simp [Excluded]) (by rw [Denied]; decide)
  have one : askedReply ⟨true, false, false, false, none⟩ ⟨text "k", []⟩ setEntry numberDatabase =
      some (.element (.int 1)) := by
    simp [askedReply, setEntry, numberDatabase_held, writeValue, writeScalar]
  have two : (runSetWith Mpf.unused ⟨true, false, false, false, none⟩
      (unparsed ⟨text "2", []⟩) ⟨text "k", []⟩ setEntry numberDatabase).map Prod.snd =
        some (.element (.int 2)) := by decide +kernel
  rw [ran] at two
  cases replied.symm.trans one
  cases two

end TellyDB.Commands.Data
