import TellyDB.Commands.Arguments
import TellyDB.Commands.Data.Settings

/-!
Owns the grammar of the options of `SET` and when `parse_options` follows it. The grammar is
stated over the bytes of the arguments, `parse_options` compares C strings.
-/

namespace TellyDB.Commands.Data

open Resp Server Database.Keyspace
open TellyDB.Database (Scalar TellyType)

/-! ## Type names -/

/-- A word is one of the names of a type. -/
def Names (word : Option Bytes) (type : TellyType) : Prop :=
  ∃ identifier ∈ typeNames, identifier.1 = type ∧ ∃ name ∈ identifier.2, word = some (text name)

/-- The type that a value gets behind a name for a type; `.unknown` is the one of a number. -/
inductive Passes (integer double boolean null : Prop) : TellyType → TellyType → Prop where
  | str : Passes integer double boolean null .str .str
  | bool (passes : boolean) : Passes integer double boolean null .bool .bool
  | null (passes : null) : Passes integer double boolean null .null .null
  | int (passes : integer) : Passes integer double boolean null .int .int
  | double (passes : double) : Passes integer double boolean null .double .double
  | numberInteger (passes : integer) : Passes integer double boolean null .unknown .int
  | numberDouble (other : ¬integer) (passes : double) :
      Passes integer double boolean null .unknown .double

/-- The value matches the type. -/
def Matches (input : Argument) : TellyType → TellyType → Prop :=
  Passes (IsInteger input.bytes) (tryParseDouble input = true)
    (input.sstreq "true" = true ∨ input.sstreq "false" = true) (input.sstreq "null" = true)

/-- `parse_options` accepts the value for the type. It takes any value for a null. -/
def Accepted (input : Argument) : TellyType → TellyType → Prop :=
  Passes (tryParseInteger input = true) (tryParseDouble input = true)
    (input.sstreq "true" = true ∨ input.sstreq "false" = true) True

theorem typeNames_clean : ∀ identifier ∈ typeNames, ∀ name ∈ identifier.2, 0 ∉ text name := by
  decide

/-- No name belongs to two types, nor begins with one of another type. -/
theorem typeNames_apart : ∀ identifier ∈ typeNames, ∀ name ∈ identifier.2,
    ∀ other ∈ typeNames, ∀ longer ∈ other.2,
      (text name).isPrefixOf (text longer) = true → identifier.1 = other.1 := by decide

/-- A word that begins with a name of a type names no other one. -/
theorem Names.unique {word longer : Bytes} {type other : TellyType} (names : Names (some word) type)
    (prefixed : word <+: longer) (others : Names (some longer) other) : type = other := by
  obtain ⟨identifier, member, rfl, name, nameMember, same⟩ := names
  obtain ⟨second, secondMember, rfl, secondName, secondNameMember, secondSame⟩ := others
  rw [Option.some.inj same, Option.some.inj secondSame] at prefixed
  exact typeNames_apart identifier member name nameMember second secondMember secondName
    secondNameMember (List.isPrefixOf_iff_prefix.mpr prefixed)

theorem any_streq_iff {identifier : TellyType × List String} (member : identifier ∈ typeNames)
    (name : Argument) : identifier.2.any name.streq = true ↔
      ∃ constant ∈ identifier.2, cWord name = some (text constant) := by
  rw [List.any_eq_true]
  constructor
  · rintro ⟨constant, constantMember, streq⟩
    exact ⟨constant, constantMember,
      (streq_iff (typeNames_clean identifier member constant constantMember)).mp streq⟩
  · rintro ⟨constant, constantMember, word⟩
    exact ⟨constant, constantMember,
      (streq_iff (typeNames_clean identifier member constant constantMember)).mpr word⟩

theorem names_of_find {name : Argument} {identifier : TellyType × List String}
    (found : (typeNames.find? fun identifier => identifier.2.any name.streq) = some identifier) :
    Names (cWord name) identifier.1 := by
  have member := List.mem_of_find?_eq_some found
  have satisfied := List.find?_some found
  exact ⟨identifier, member, rfl, (any_streq_iff member name).mp satisfied⟩

/-- The loop over `types` finds the type of a name. -/
theorem namedType_of_names {name : Argument} {type : TellyType} (names : Names (cWord name) type) :
    namedType name .unknown = type := by
  have all := names
  obtain ⟨identifier, member, -, named⟩ := all
  rw [namedType]
  cases found : typeNames.find? fun identifier => identifier.2.any name.streq with
  | none =>
      exact absurd ((any_streq_iff member name).mpr named)
        (List.find?_eq_none.mp found identifier member)
  | some other =>
      have others := names_of_find found
      obtain ⟨constant, -, word⟩ := named
      rw [word] at names others
      exact (names.unique List.prefix_rfl others).symm

theorem namedType_of_none {name : Argument} (none_ : ∀ type, ¬Names (cWord name) type) :
    namedType name .unknown = .unknown := by
  rw [namedType]
  cases found : typeNames.find? fun identifier => identifier.2.any name.streq with
  | none => rfl
  | some other => exact absurd (names_of_find found) (none_ other.1)

/-- The two names that the switch on the type compares again. -/
theorem names_unknown_iff {name : Argument} : Names (cWord name) .unknown ↔
    (name.streq "NUM" || name.streq "NUMBER") = true := by
  rw [Bool.or_eq_true, streq_iff (by decide), streq_iff (by decide)]
  simp [Names, typeNames]

theorem exists_valid_iff (result : OptionParsingCode × Response) (type : TellyType) :
    (∃ response, result = (.validOptions, response) ∧ response.type = type) ↔
      result.1 = .validOptions ∧ type = result.2.type := by
  constructor
  · rintro ⟨response, rfl, same⟩
    exact ⟨rfl, same.symm⟩
  · rintro ⟨valid, same⟩
    exact ⟨result.2, Prod.ext valid rfl, same.symm⟩

/-- A check of the value for a type. -/
theorem checked_iff {check : Prop} [Decidable check] {refusal : OptionParsingCode}
    (refuses : refusal ≠ .validOptions) {response : Response} {type : TellyType} :
    ((if check then (OptionParsingCode.validOptions, response) else (refusal, response)).1 =
        .validOptions ∧
      type = (if check then (OptionParsingCode.validOptions, response)
        else (refusal, response)).2.type) ↔ check ∧ type = response.type := by
  by_cases passes : check
  · simp [passes]
  · simp [passes, refuses]

theorem refused_iff {input : Argument} :
    ((!input.sstreq "true" && !input.sstreq "false") = true) =
      ¬(input.sstreq "true" = true ∨ input.sstreq "false" = true) := by simp

/-- Behind a name of a type, `AS` is valid where the value is accepted for the type. -/
theorem parseAsOption_named {input name : Argument} {named : TellyType}
    (names : Names (cWord name) named) (type : TellyType) :
    (∃ response, parseAsOption name (unparsed input) = (.validOptions, response) ∧
        response.type = type) ↔ Accepted input named type := by
  have here := namedType_of_names names
  have scalar := namedType_scalar name
  rw [exists_valid_iff, parseAsOption]
  simp only [unparsed, here]
  cases named with
  | hashtable => exact absurd here scalar.1
  | list => exact absurd here scalar.2
  | str =>
      constructor
      · rintro ⟨-, rfl⟩
        exact .str
      · rintro ⟨⟩
        exact ⟨rfl, rfl⟩
  | null =>
      constructor
      · rintro ⟨-, rfl⟩
        exact .null trivial
      · rintro ⟨⟩
        exact ⟨rfl, rfl⟩
  | bool =>
      dsimp only
      simp only [refused_iff, ite_not]
      rw [checked_iff (by decide)]
      constructor
      · rintro ⟨boolean, rfl⟩
        exact .bool boolean
      · rintro ⟨⟩
        exact ⟨‹_›, rfl⟩
  | int =>
      dsimp only
      rw [checked_iff (by decide)]
      constructor
      · rintro ⟨integer, rfl⟩
        exact .int integer
      · rintro ⟨⟩
        exact ⟨‹_›, rfl⟩
  | double =>
      dsimp only
      rw [checked_iff (by decide)]
      constructor
      · rintro ⟨double, rfl⟩
        exact .double double
      · rintro ⟨⟩
        exact ⟨‹_›, rfl⟩
  | unknown =>
      dsimp only
      rw [if_pos (names_unknown_iff.mp names)]
      simp only [takeAsNumber]
      by_cases integer : tryParseInteger input = true
      · simp only [integer, ↓reduceIte, reduceCtorEq]
        constructor
        · rintro ⟨-, rfl⟩
          exact .numberInteger integer
        · intro passes
          cases passes with
          | numberInteger => exact ⟨trivial, rfl⟩
          | numberDouble other => exact absurd integer other
      · by_cases double : tryParseDouble input = true
        · simp only [integer, double, ↓reduceIte, reduceCtorEq, Bool.false_eq_true]
          constructor
          · rintro ⟨-, rfl⟩
            exact .numberDouble integer double
          · intro passes
            cases passes with
            | numberInteger passes => exact absurd passes integer
            | numberDouble => exact ⟨trivial, rfl⟩
        · refine iff_of_false (by simp [integer, double]) ?_
          rintro ⟨⟩ <;> contradiction

/-- `AS` accepts the names of the types whose check the value passes. -/
theorem parseAsOption_valid_iff (input name : Argument) (type : TellyType) :
    (∃ response, parseAsOption name (unparsed input) = (.validOptions, response) ∧
        response.type = type) ↔ ∃ named, Names (cWord name) named ∧ Accepted input named type := by
  by_cases some_ : ∃ named, Names (cWord name) named
  · obtain ⟨named, names⟩ := some_
    rw [parseAsOption_named names]
    constructor
    · exact fun accepted => ⟨named, names, accepted⟩
    · rintro ⟨other, others, accepted⟩
      rwa [← namedType_of_names names, namedType_of_names others]
  · have none_ : ∀ type, ¬Names (cWord name) type := not_exists.mp some_
    have apart : (name.streq "NUM" || name.streq "NUMBER") = false := by
      rw [← Bool.not_eq_true, ← names_unknown_iff]
      exact none_ .unknown
    rw [exists_valid_iff, parseAsOption]
    apply iff_of_false
    · simp [unparsed, namedType_of_none none_, apart]
    · rintro ⟨named, names, _⟩
      exact none_ named names

/-! ## The options -/

/-- The words that `parse_options` compares an option with. -/
def optionWords : List String := ["GET", "NX", "XX", "EX", "PX", "AS"]

theorem optionWords_clean : ∀ word ∈ optionWords, 0 ∉ text word := by decide

/-- None of them begins with another one. -/
theorem optionWords_apart : ∀ word ∈ optionWords, ∀ other ∈ optionWords,
    (text word).isPrefixOf (text other) = true → word = other := by decide

theorem streq_word (option : Argument) {word : String} (member : word ∈ optionWords) :
    option.streq word = true ↔ cWord option = some (text word) :=
  streq_iff (optionWords_clean word member)

/-- An option that is one word is no other one. -/
theorem streq_other {option : Argument} {word other : String} (member : word ∈ optionWords)
    (otherMember : other ∈ optionWords) (here : cWord option = some (text word))
    (apart : word ≠ other) : option.streq other = false := by
  rw [← Bool.not_eq_true, streq_iff (optionWords_clean other otherMember), here, Option.some_inj]
  intro same
  apply apart
  apply optionWords_apart word member other otherMember
  rw [same]
  exact List.isPrefixOf_iff_prefix.mpr List.prefix_rfl

/-- `EX` or `PX` with an argument that passes the checks, which reaches `unreachable()`. -/
def Unreachable (option argument : Argument) : Prop :=
  (cWord option.uppercase = some (text "EX") ∨ cWord option.uppercase = some (text "PX")) ∧
    tryParseInteger argument = true ∧ (atoullS argument.bytes).1 ≠ erange

/-- `AS` with a name that `parse_options` accepts for the value. -/
def AcceptsAs (input option name : Argument) (type : TellyType) : Prop :=
  cWord option.uppercase = some (text "AS") ∧
    ∃ named, Names (cWord name.uppercase) named ∧ Accepted input named type

variable {now : Nat} {input option : Argument} {rest : List Argument}

theorem parseExpiryOption_eq_none_iff {invalid bounds syscall : OptionParsingCode}
    {argument : Argument} : parseExpiryOption (some now) invalid bounds syscall argument = none ↔
      tryParseInteger argument = true ∧ (atoullS argument.bytes).1 ≠ erange := by
  rw [parseExpiryOption]
  by_cases integer : tryParseInteger argument = true
  · by_cases bounds : (atoullS argument.bytes).1 = erange
    · simp [integer, bounds]
    · simp [integer, bounds]
  · simp [integer]

theorem bind_some_eq_none_iff {α β : Type} {computed : Option α} {result : β} :
    (do let _ ← computed; some result) = none ↔ computed = none := by
  cases computed <;> simp

/-- The loop gets stuck at an expiry only. -/
theorem parseOption_eq_none_iff :
    parseOption (some now) option rest noOptions (unparsed input) = none ↔
      ∃ argument more, rest = argument :: more ∧ Unreachable option argument := by
  constructor
  · intro stuck
    unfold parseOption at stuck
    simp only [noOptions] at stuck
    split at stuck
    · cases stuck
    split at stuck
    · cases stuck
    split at stuck
    · cases stuck
    split at stuck
    · next ex =>
        split at stuck
        · cases stuck
        · next argument more =>
            rw [bind_some_eq_none_iff, parseExpiryOption_eq_none_iff] at stuck
            exact ⟨argument, more, rfl, .inl ((streq_word _ (by decide)).mp ex), stuck⟩
    split at stuck
    · next px =>
        split at stuck
        · cases stuck
        · next argument more =>
            rw [bind_some_eq_none_iff, parseExpiryOption_eq_none_iff] at stuck
            exact ⟨argument, more, rfl, .inr ((streq_word _ (by decide)).mp px), stuck⟩
    split at stuck
    · split at stuck
      · cases stuck
      · cases stuck
    · cases stuck
  · rintro ⟨argument, more, rfl, word, stuck⟩
    have apart : ∀ other ∈ ["GET", "NX", "XX"], option.uppercase.streq other = false := by
      intro other member
      rcases word with ex | px
      · exact streq_other (by decide) (by revert other; decide) ex (by revert other; decide)
      · exact streq_other (by decide) (by revert other; decide) px (by revert other; decide)
    rcases word with ex | px
    · have same := (streq_word option.uppercase (by decide)).mpr ex
      simp [parseOption, apart, same, parseExpiryOption_eq_none_iff.mpr stuck]
    · have same := (streq_word option.uppercase (by decide)).mpr px
      have other := streq_other (by decide) (by decide) px (by decide : "PX" ≠ "EX")
      simp [parseOption, apart, same, other, parseExpiryOption_eq_none_iff.mpr stuck]

theorem parseOption_as {clock : Option Nat} (word : cWord option.uppercase = some (text "AS"))
    {name : Argument} {more : List Argument} {response : Response}
    (valid : parseAsOption name.uppercase (unparsed input) = (.validOptions, response)) :
    parseOption clock option (name :: more) noOptions (unparsed input) =
      some (.validOptions, { noOptions with as := true }, response) := by
  have same := (streq_word option.uppercase (by decide)).mpr word
  have apart : ∀ other ∈ ["GET", "NX", "XX", "EX", "PX"], option.uppercase.streq other = false := by
    intro other member
    exact streq_other (by decide) (by revert other; decide) word (by revert other; decide)
  simp [parseOption, apart, same, valid]

/-- What `parse_options` accepts: nothing, or `AS` and a name, whatever lies behind it. -/
theorem parseOptions_valid_iff {clock : Option Nat} {args : List Argument} {options : Options}
    {response : Response} :
    parseOptions clock args noOptions (unparsed input) =
        some (.validOptions, options, response) ↔
      (args = [] ∧ options = noOptions ∧ response = unparsed input) ∨
        ∃ option name more, args = option :: name :: more ∧
          cWord option.uppercase = some (text "AS") ∧
          parseAsOption name.uppercase (unparsed input) = (.validOptions, response) ∧
          options = { noOptions with as := true } := by
  cases args with
  | nil =>
      rw [parseOptions]
      constructor
      · intro parsed
        cases parsed
        exact .inl ⟨rfl, rfl, rfl⟩
      · rintro (⟨-, rfl, rfl⟩ | ⟨_, _, _, same, -⟩)
        · rfl
        · cases same
  | cons option rest =>
      rw [parseOptions]
      constructor
      · intro parsed
        obtain ⟨name, more, rfl, as, valid, same⟩ := parseOption_valid parsed
        exact .inr ⟨option, name, more, rfl, (streq_word _ (by decide)).mp as, valid, same⟩
      · rintro (⟨same, -⟩ | ⟨_, name, more, same, word, valid, rfl⟩)
        · cases same
        · cases same
          exact parseOption_as word valid

/-- What the part behind the options is given. -/
theorem parseOptions_parsed {clock : Option Nat} {args : List Argument} {options : Options}
    {response : Response}
    (parsed : parseOptions clock args noOptions (unparsed input) =
      some (.validOptions, options, response)) : Parsed input options.as response := by
  rcases parseOptions_valid_iff.mp parsed with
    ⟨-, rfl, rfl⟩ | ⟨option, name, more, -, -, valid, rfl⟩
  · exact .inferred
  · exact .typed valid

/-! ## The grammar -/

/-- One option. An expiry is its deadline, `AS` the type that the value gets. -/
inductive Phrase where
  | get
  | nx
  | xx
  | expiry (deadline : Nat)
  | as (type : TellyType)

/-- What a phrase is about; at most one phrase of each kind is given. -/
inductive PhraseKind where
  | reply
  | presence
  | deadline
  | type
deriving DecidableEq

def Phrase.kind : Phrase → PhraseKind
  | .get => .reply
  | .nx | .xx => .presence
  | .expiry _ => .deadline
  | .as _ => .type

/-- An integer, and a deadline of 64 bits that lies so many units after `now`. -/
structure InRange (now unit : Nat) (argument : Argument) : Prop where
  integer : IsInteger argument.bytes
  positive : 0 ≤ integerValue argument.bytes
  fits : now + (integerValue argument.bytes).toNat * unit ≤ uint64Max

/-- The arguments of one option, in any letter case. -/
inductive IsPhrase (now : Nat) (input : Argument) : List Argument → Phrase → Prop where
  | get {option : Argument} (word : toUppercase option.bytes = text "GET") :
      IsPhrase now input [option] .get
  | nx {option : Argument} (word : toUppercase option.bytes = text "NX") :
      IsPhrase now input [option] .nx
  | xx {option : Argument} (word : toUppercase option.bytes = text "XX") :
      IsPhrase now input [option] .xx
  | ex {option argument : Argument} (word : toUppercase option.bytes = text "EX")
      (inRange : InRange now 1000 argument) :
      IsPhrase now input [option, argument]
        (.expiry (now + (integerValue argument.bytes).toNat * 1000))
  | px {option argument : Argument} (word : toUppercase option.bytes = text "PX")
      (inRange : InRange now 1 argument) :
      IsPhrase now input [option, argument]
        (.expiry (now + (integerValue argument.bytes).toNat * 1))
  | as {option name : Argument} {named type : TellyType}
      (word : toUppercase option.bytes = text "AS")
      (names : Names (some (toUppercase name.bytes)) named)
      (passes : Matches input named type) : IsPhrase now input [option, name] (.as type)

/-- The arguments of some options, one after the other. -/
inductive ArePhrases (now : Nat) (input : Argument) : List Argument → List Phrase → Prop where
  | nil : ArePhrases now input [] []
  | cons {front rest : List Argument} {phrase : Phrase} {phrases : List Phrase}
      (here : IsPhrase now input front phrase) (later : ArePhrases now input rest phrases) :
      ArePhrases now input (front ++ rest) (phrase :: phrases)

/-- The arguments behind the value form these options. -/
structure Grammar (now : Nat) (input : Argument) (args : List Argument) (phrases : List Phrase) :
    Prop where
  reads : ArePhrases now input args phrases
  kinds : (phrases.map Phrase.kind).Nodup

def Phrase.give (options : Options) : Phrase → Options
  | .get => { options with get := true }
  | .nx => { options with nx := true }
  | .xx => { options with xx := true }
  | .expiry deadline => { options with expiry := some deadline }
  | .as _ => { options with as := true }

def givenOptions (phrases : List Phrase) : Options := phrases.foldl Phrase.give noOptions

/-- The type that `AS` gives, `.unknown` without it. -/
def givenType : List Phrase → TellyType
  | [] => .unknown
  | .as type :: _ => type
  | _ :: rest => givenType rest

/-- `parse_options` gets through, accepts the grammar and leaves what it gives. -/
structure ParsesGrammar (now : Nat) (input : Argument) (args : List Argument) : Prop where
  reached : parseOptions (some now) args noOptions (unparsed input) ≠ none
  valid_iff : (∃ options response, parseOptions (some now) args noOptions (unparsed input) =
      some (.validOptions, options, response)) ↔ ∃ phrases, Grammar now input args phrases
  given : ∀ options response, parseOptions (some now) args noOptions (unparsed input) =
      some (.validOptions, options, response) → ∃ phrases, Grammar now input args phrases ∧
        options = givenOptions phrases ∧ response.type = givenType phrases

/-- No option is given; or `AS` and a name alone, which `parse_options` accepts; or the arguments
are no options, and do not begin with an `AS` that it accepts or an expiry that is an integer. -/
def GrammarReached (now : Nat) (input : Argument) (args : List Argument) : Prop :=
  args = [] ∨
    (∃ option name type, args = [option, name] ∧ AcceptsAs input option name type ∧
      ∃ phrases, Grammar now input args phrases) ∨
    (¬∃ phrases, Grammar now input args phrases) ∧
      ∀ option argument more, args = option :: argument :: more →
        (∀ type, ¬AcceptsAs input option argument type) ∧ ¬Unreachable option argument

section Agreement

variable {args : List Argument} {phrases : List Phrase} {phrase : Phrase} {options : Options}

/-- A word in the bytes of an argument begins its C string. -/
theorem prefix_of_cWord {argument : Argument} {word longer : Bytes} (clean : 0 ∉ word)
    (bytes : toUppercase argument.bytes = word)
    (held : cWord argument.uppercase = some longer) : word <+: longer := by
  rw [cWord] at held
  split at held
  · have memory : argument.uppercase.memory = word ++ argument.following := by
      rw [← bytes]
      rfl
    rw [Option.some_inj, memory, cString_append clean] at held
    exact ⟨_, held⟩
  · cases held

/-- The bytes of a name and its C string name the same type. -/
theorem Names.called {name : Argument} {type other : TellyType}
    (names : Names (some (toUppercase name.bytes)) type) (others : Names (cWord name.uppercase) other) :
    type = other := by
  have all := names
  obtain ⟨identifier, member, -, constant, constantMember, word⟩ := all
  obtain ⟨_, _, _, longer, _, called⟩ := id others
  have clean := typeNames_clean identifier member constant constantMember
  rw [Option.some.inj word] at names
  rw [called] at others
  exact names.unique (prefix_of_cWord clean (Option.some.inj word) called) others

theorem ArePhrases.inverted (reads : ArePhrases now input args phrases) :
    (args = [] ∧ phrases = []) ∨ ∃ front rest phrase later, args = front ++ rest ∧
      phrases = phrase :: later ∧ IsPhrase now input front phrase ∧
        ArePhrases now input rest later := by
  cases reads with
  | nil => exact .inl ⟨rfl, rfl⟩
  | cons here later => exact .inr ⟨_, _, _, _, rfl, rfl, here, later⟩

/-- Arguments that begin with `AS` begin with that phrase. -/
theorem ArePhrases.as_first {name : Argument} {more : List Argument}
    (reads : ArePhrases now input (option :: name :: more) phrases)
    (word : cWord option.uppercase = some (text "AS")) :
    ∃ named type later, phrases = .as type :: later ∧
      Names (some (toUppercase name.bytes)) named ∧ Matches input named type ∧
      ArePhrases now input more later := by
  have apart : ∀ other ∈ optionWords, toUppercase option.bytes = text other → other = "AS" := by
    intro other member bytes
    exact optionWords_apart other member "AS" (by decide)
      (List.isPrefixOf_iff_prefix.mpr (prefix_of_cWord (optionWords_clean other member) bytes word))
  rcases reads.inverted with ⟨none_, -⟩ | ⟨front, rest, phrase, later, split, rfl, here, reads⟩
  · cases none_
  · cases here with
    | get bytes | nx bytes | xx bytes =>
        obtain ⟨rfl, -⟩ := List.cons.inj split
        exact absurd (apart _ (by decide) bytes) (by decide)
    | ex bytes | px bytes =>
        obtain ⟨rfl, -⟩ := List.cons.inj split
        exact absurd (apart _ (by decide) bytes) (by decide)
    | as bytes names passes =>
        obtain ⟨rfl, same⟩ := List.cons.inj split
        obtain ⟨rfl, rfl⟩ := List.cons.inj same
        exact ⟨_, _, later, rfl, names, passes, reads⟩

/-- Where the value matches and is accepted, it gets the same type. -/
theorem Matches.type_eq {named other type given : TellyType} (passes : Matches input named type)
    (accepted : Accepted input other given) (same : named = other) : type = given := by
  subst same
  cases passes with
  | str | bool | null | int | double =>
      cases accepted
      rfl
  | numberInteger integer =>
      cases accepted with
      | numberInteger => rfl
      | numberDouble _ double =>
          rw [tryParseDouble_numeral input integer.isNumeral] at double
          cases double
  | numberDouble other =>
      cases accepted with
      | numberInteger integer => exact absurd ((tryParseInteger_iff input).mp integer).1 other
      | numberDouble => rfl

/-- Something other than a type is given. -/
def Options.asks (options : Options) : Prop :=
  options.get = true ∨ options.nx = true ∨ options.xx = true ∨ options.expiry ≠ none

theorem Phrase.give_asks (phrase : Phrase) (asks : options.asks) : (phrase.give options).asks := by
  cases phrase <;> simp_all [Options.asks, Phrase.give]

theorem foldl_give_asks (phrases : List Phrase) (asks : options.asks) :
    (phrases.foldl Phrase.give options).asks := by
  induction phrases generalizing options with
  | nil => exact asks
  | cons phrase rest inductionHypothesis => exact inductionHypothesis (phrase.give_asks asks)

/-- Behind `AS` nothing else is given only where no option follows. -/
theorem givenOptions_as {type : TellyType} {later : List Phrase}
    (kinds : ((Phrase.as type :: later).map Phrase.kind).Nodup)
    (given : givenOptions (.as type :: later) = { noOptions with as := true }) : later = [] := by
  cases later with
  | nil => rfl
  | cons phrase rest =>
      have other : phrase.kind ≠ .type := by
        intro same
        rw [List.map_cons, List.map_cons, List.nodup_cons, same] at kinds
        exact kinds.1 (List.mem_cons_self ..)
      have asks : (phrase.give { noOptions with as := true }).asks := by
        cases phrase <;> simp_all [Options.asks, Phrase.give, Phrase.kind]
      have never : ¬Options.asks { noOptions with as := true } := by simp [Options.asks, noOptions]
      rw [← given] at never
      exact absurd (foldl_give_asks rest asks) never

end Agreement

/-- Behind an `AS` that it accepts `parse_options` follows the grammar where nothing else comes. -/
theorem parse_grammar_as {now : Nat} {input option name : Argument} {type : TellyType}
    (more : List Argument) (accepted : AcceptsAs input option name type) :
    ParsesGrammar now input (option :: name :: more) ↔
      more = [] ∧ ∃ phrases, Grammar now input (option :: name :: more) phrases := by
  obtain ⟨word, accepts⟩ := accepted
  obtain ⟨response, valid, typed⟩ := (parseAsOption_valid_iff input name.uppercase type).mpr accepts
  have parsed : parseOptions (some now) (option :: name :: more) noOptions (unparsed input) =
      some (.validOptions, { noOptions with as := true }, response) := by
    rw [parseOptions]
    exact parseOption_as word valid
  constructor
  · intro parses
    obtain ⟨phrases, grammar, options, -⟩ := parses.given _ _ parsed
    obtain ⟨named, _, later, rfl, -, -, reads⟩ := grammar.reads.as_first word
    have alone : later = [] := givenOptions_as grammar.kinds options.symm
    refine ⟨?_, parses.valid_iff.mp ⟨_, _, parsed⟩⟩
    subst alone
    rcases reads.inverted with ⟨none_, -⟩ | ⟨_, _, _, _, _, some_, _⟩
    · exact none_
    · cases some_
  · rintro ⟨rfl, phrases, grammar⟩
    obtain ⟨named, other, later, rfl, names, passes, reads⟩ := grammar.reads.as_first word
    rcases reads.inverted with ⟨-, rfl⟩ | ⟨front, _, _, _, split, -, here, -⟩
    · refine ⟨?_, iff_of_true ⟨_, _, parsed⟩ ⟨_, grammar⟩, fun options left again => ?_⟩
      · rw [parsed]
        exact Option.some_ne_none _
      · cases parsed.symm.trans again
        refine ⟨_, grammar, rfl, ?_⟩
        obtain ⟨_, called, check⟩ := accepts
        rw [typed, givenType, passes.type_eq check (names.called called)]
    · obtain ⟨empty, -⟩ := List.append_eq_nil_iff.mp split.symm
      subst empty
      cases here

/-- `parse_options` follows the grammar exactly where the arguments stay clear of its loop. -/
theorem parse_grammar_iff (now : Nat) (input : Argument) (args : List Argument) :
    ParsesGrammar now input args ↔ GrammarReached now input args := by
  cases args with
  | nil =>
      have empty : Grammar now input [] [] := ⟨.nil, List.nodup_nil⟩
      refine iff_of_true ⟨nofun, iff_of_true ⟨_, _, rfl⟩ ⟨[], empty⟩, ?_⟩ (.inl rfl)
      intro options response parsed
      cases parsed
      exact ⟨[], empty, rfl, rfl⟩
  | cons option rest =>
      by_cases accepts : ∃ name more type, rest = name :: more ∧ AcceptsAs input option name type
      · obtain ⟨name, more, type, rfl, accepted⟩ := accepts
        rw [parse_grammar_as more accepted]
        constructor
        · rintro ⟨rfl, grammar⟩
          exact .inr (.inl ⟨option, name, type, rfl, accepted, grammar⟩)
        · rintro (none_ | ⟨_, _, _, same, -, grammar⟩ | ⟨-, clear⟩)
          · cases none_
          · cases same
            exact ⟨rfl, grammar⟩
          · exact absurd accepted ((clear option name more rfl).1 type)
      · have invalid : ¬∃ options response, parseOptions (some now) (option :: rest) noOptions
            (unparsed input) = some (.validOptions, options, response) := by
          rintro ⟨options, response, parsed⟩
          rcases parseOptions_valid_iff.mp parsed with ⟨none_, -⟩ | ⟨_, name, more, same, word, valid, -⟩
          · cases none_
          · cases same
            have accepted := (parseAsOption_valid_iff input name.uppercase response.type).mp
              ⟨response, valid, rfl⟩
            exact accepts ⟨name, more, response.type, rfl, word, accepted⟩
        constructor
        · intro parses
          refine .inr (.inr ⟨mt parses.valid_iff.mpr invalid, fun _ argument more same => ?_⟩)
          cases same
          constructor
          · exact fun type accepted => accepts ⟨argument, more, type, rfl, accepted⟩
          · exact fun stuck => parses.reached
              (parseOption_eq_none_iff.mpr ⟨argument, more, rfl, stuck⟩)
        · rintro (none_ | ⟨_, name, type, same, accepted, -⟩ | ⟨outside, clear⟩)
          · cases none_
          · cases same
            exact absurd ⟨name, [], type, rfl, accepted⟩ accepts
          · constructor
            · intro stuck
              obtain ⟨argument, more, rfl, unreachable⟩ := parseOption_eq_none_iff.mp stuck
              exact (clear option argument more rfl).2 unreachable
            · exact iff_of_false invalid outside
            · exact fun options response parsed => absurd ⟨options, response, parsed⟩ invalid

/-- SET k 1 NX is refused. -/
theorem parse_grammar_fails_for_nx : ¬ParsesGrammar 0 ⟨text "1", [0]⟩ [⟨text "NX", [0]⟩] := by
  intro parses
  have grammar : Grammar 0 ⟨text "1", [0]⟩ [⟨text "NX", [0]⟩] [.nx] := by
    constructor
    · exact .cons (.nx (by decide)) .nil
    · decide
  obtain ⟨options, response, parsed⟩ := parses.valid_iff.mpr ⟨_, grammar⟩
  have refused : (parseOptions (some 0) [⟨text "NX", [0]⟩] noOptions
      (unparsed ⟨text "1", [0]⟩)).map Prod.fst = some .invalidOptions := by decide
  rw [parsed] at refused
  cases refused

end TellyDB.Commands.Data
