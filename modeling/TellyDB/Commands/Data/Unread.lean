import TellyDB.Commands.Data.Shapes

/-!
Owns the commands on keys that a client without P_READ is not refused: when they are
defined, and that on databases of the same shapes they reply the same and leave databases
of the same shapes.
-/

namespace TellyDB.Commands.Data

open Resp Server Database.Keyspace
open TellyDB.Database (Scalar Table TellyType)

variable {mpf : Mpf} {clock : Option Nat} {entry : Entry} {left right data : Data}

/-! ## When they are defined -/

/-- What SET is asked for by the arguments behind its value, before it parses them. -/
def noOptions : Options := ⟨false, false, false, false, none⟩

/-- What SET knows of its value before it parses the arguments behind it. -/
def unparsed (input : Argument) : Response :=
  ⟨input, .unknown, false, false, input.sstreq "true"⟩

/-- How many of the keys a database has. -/
def presentKeys (keys : List Argument) (data : Data) : Nat :=
  (keys.map fun key => (data.get key.bytes).isSome).count true

/-- No list that DEL or SET frees has its `end->next` on a freed node, EXISTS has room for 9 bytes
of each key that is present and 12 of each that is not, SET can name the error in its options and
gives its value the type of the data, and TYPE has a name for the type. -/
def KeyCommand.Survives (mpf : Mpf) (clock : Option Nat) (command : KeyCommand)
    (args : List Argument) (data : Data) : Prop :=
  match command, args with
  | .del, keys => ∀ key ∈ keys, Freeable data key
  | .exist, keys => 9 * presentKeys keys data + 12 * (keys.length - presentKeys keys data) < 8192
  | .set, key :: input :: rest => ∃ code options response,
      parseOptions clock rest noOptions (unparsed input) = some (code, options, response) ∧
        (code = .validOptions →
          (storedScalar (setValue mpf options response)).isSome ∧ Freeable data key)
  | .type, [key] => ∀ kv, data.get key.bytes = some kv → kv.value.type ≠ .unknown
  | _, _ => True

theorem getRespTypeName_isSome (type : TellyType) :
    (getRespTypeName type).isSome ↔ type ≠ .unknown := by
  cases type <;> simp [getRespTypeName]

theorem setData_isSome {key : Argument} (value : Value) (expireAt : Option Nat) :
    (setData data (data.get key.bytes) key.bytes value expireAt).isSome ↔ Freeable data key := by
  rw [Freeable]
  cases held : data.get key.bytes with
  | none => simp [setData]
  | some kv =>
      obtain ⟨former, expiry⟩ := kv
      cases former with
      | scalar former => simp [setData, freeValue]
      | hashtable former => simp [setData, freeValue]
      | list former =>
          cases freed : former.backFreed <;> simp [setData, freeValue, ListValue.llFree, freed]

/-- Only a complete AS is a valid option. -/
theorem parseOption_valid {option : Argument} {rest : List Argument} {input : Argument}
    {options : Options} {response : Response}
    (parsed : parseOption clock option rest noOptions (unparsed input) =
      some (.validOptions, options, response)) :
    ∃ name more, rest = name :: more ∧ option.uppercase.streq "AS" = true ∧
      parseAsOption name.uppercase (unparsed input) = (.validOptions, response) ∧
      options = { noOptions with as := true } := by
  unfold parseOption at parsed
  simp only [noOptions] at parsed
  split at parsed
  · cases parsed
  split at parsed
  · cases parsed
  split at parsed
  · cases parsed
  split at parsed
  · split at parsed
    · cases parsed
    · rw [Option.bind_eq_bind, Option.bind_eq_some_iff] at parsed
      obtain ⟨-, -, invalid⟩ := parsed
      cases invalid
  split at parsed
  · split at parsed
    · cases parsed
    · rw [Option.bind_eq_bind, Option.bind_eq_some_iff] at parsed
      obtain ⟨-, -, invalid⟩ := parsed
      cases invalid
  split at parsed
  · next as =>
      split at parsed
      · cases parsed
      · next name more =>
          simp only [Option.some.injEq, Prod.mk.injEq] at parsed
          obtain ⟨code, rfl, rfl⟩ := parsed
          exact ⟨name, more, rfl, as, Prod.ext code rfl, rfl⟩
  · cases parsed

theorem parseOptions_valid {args : List Argument} {input : Argument} {options : Options}
    {response : Response}
    (parsed : parseOptions clock args noOptions (unparsed input) =
      some (.validOptions, options, response)) :
    options.get = false ∧ options.nx = false ∧ options.xx = false := by
  cases args with
  | nil =>
      cases parsed
      exact ⟨rfl, rfl, rfl⟩
  | cons option rest =>
      obtain ⟨_, _, _, _, _, rfl⟩ := parseOption_valid parsed
      exact ⟨rfl, rfl, rfl⟩

/-- SET without GET, NX and XX. -/
theorem runSetWith_plain {options : Options} {response : Response} {key : Argument}
    (plain : options.get = false ∧ options.nx = false ∧ options.xx = false) :
    runSetWith mpf options response key entry data =
      (storedScalar (setValue mpf options response)).bind fun value =>
        (setData data (data.get key.bytes) key.bytes (.scalar value) options.expiry).bind
          fun after => some (after, entry.answer .ok) := by
  obtain ⟨get, nx, xx⟩ := plain
  simp only [runSetWith, get, nx, xx, Bool.false_and, Bool.false_eq_true, if_false, getData]
  rfl

theorem del_survives_iff :
    (runDel entry data).isSome ↔ ∀ key ∈ entry.args, Freeable data key := by
  rw [← deleteAll_isSome, runDel]
  split
  · next none =>
      rw [List.eq_nil_of_length_eq_zero none]
      simp [deleteAll]
  · cases deleteAll entry.args data <;> simp

theorem setPlain_survives_iff {options : Options} {response : Response} {key : Argument}
    (plain : options.get = false ∧ options.nx = false ∧ options.xx = false) :
    (runSetWith mpf options response key entry data).isSome ↔
      (storedScalar (setValue mpf options response)).isSome ∧ Freeable data key := by
  rw [runSetWith_plain plain]
  cases storedScalar (setValue mpf options response) with
  | none => simp
  | some value =>
      rw [Option.bind_some, ← setData_isSome (.scalar value) options.expiry]
      cases setData data (data.get key.bytes) key.bytes (.scalar value) options.expiry <;> simp

theorem set_survives_iff :
    (runSet mpf clock entry data).isSome ↔
      KeyCommand.Survives mpf clock .set entry.args data := by
  rw [runSet]
  split
  · next key input rest args =>
      rw [args, KeyCommand.Survives]
      show (Option.bind (parseOptions clock rest noOptions (unparsed input)) _).isSome ↔ _
      cases parsed : parseOptions clock rest noOptions (unparsed input) with
      | none => simp
      | some result =>
          obtain ⟨code, options, response⟩ := result
          by_cases valid : code = .validOptions
          · subst valid
            have plain := parseOptions_valid parsed
            simp only [Option.bind_some, if_true, setPlain_survives_iff plain,
              Option.some.injEq, Prod.mk.injEq]
            constructor
            · intro survives
              exact ⟨_, _, _, ⟨rfl, rfl, rfl⟩, fun _ => survives⟩
            · rintro ⟨_, _, _, ⟨rfl, rfl, rfl⟩, survives⟩
              exact survives rfl
          · simp [valid]
  · next other =>
      rcases args : entry.args with _ | ⟨key, _ | ⟨input, rest⟩⟩
      · simp [KeyCommand.Survives]
      · simp [KeyCommand.Survives]
      · exact absurd args (other key input rest)

theorem type_survives_iff {protover : ProtocolVersion} (connected : entry.client = some protover) :
    (runType entry data).isSome ↔ KeyCommand.Survives mpf clock .type entry.args data := by
  rw [runType, reading, connected]
  rcases args : entry.args with _ | ⟨key, _ | ⟨second, rest⟩⟩
  · simp [KeyCommand.Survives]
  · simp only [KeyCommand.Survives, getData]
    cases data.get key.bytes with
    | none => simp
    | some kv => simp [getRespTypeName_isSome]
  · simp [KeyCommand.Survives]

/-- The lines of EXISTS have 9 and 12 bytes. -/
theorem length_existsLines (found : List Bool) : (found.flatMap existsLine).length =
    9 * found.count true + 12 * (found.length - found.count true) := by
  induction found with
  | nil => rfl
  | cons exist rest inductionHypothesis =>
      have bound := List.count_le_length (a := true) (l := rest)
      rw [List.flatMap_cons, List.length_append, inductionHypothesis, List.length_cons]
      cases exist with
      | true =>
          have line : (existsLine true).length = 9 := by decide
          rw [line, List.count_cons_self]
          omega
      | false =>
          have line : (existsLine false).length = 12 := by decide
          rw [line, List.count_cons_of_ne (by decide)]
          omega

theorem exists_survives_iff {protover : ProtocolVersion} (connected : entry.client = some protover) :
    (runExists entry data).isSome ↔ KeyCommand.Survives mpf clock .exist entry.args data := by
  have fits : 9 * presentKeys entry.args data +
      12 * (entry.args.length - presentKeys entry.args data) =
        ((entry.args.map fun key => (getData data key.bytes).isSome).flatMap existsLine).length := by
    rw [length_existsLines, List.length_map]
    rfl
  rw [KeyCommand.Survives, fits, runExists, reading, connected]
  simp only [Option.isSome_map]
  split
  · next none =>
      rw [List.eq_nil_of_length_eq_zero none]
      exact iff_of_true rfl (Nat.zero_lt_succ _)
  · rw [Option.isSome_ite]
    exact Iff.rfl

theorem rename_isSome : (runRename entry data).isSome := by
  rw [runRename]
  split
  · split <;> rfl
  · rfl

theorem hdel_isSome (lacks : entry.permissions &&& Permission.read = 0) :
    (runHdel entry data).isSome := by
  rw [runHdel]
  split
  · split
    · split
      · rw [if_pos lacks]
        rfl
      · rfl
    · rfl
  · rfl

theorem hset_isSome : (runHset mpf entry data).isSome := by
  rw [runHset]
  split
  · split
    · rfl
    · split
      · split <;> rfl
      · rfl
  · rfl

theorem push_isSome {name : String} {insert : ListValue → Scalar → ListValue} :
    (runPush mpf name insert entry data).isSome := by
  rw [runPush]
  split
  · split
    · dsimp only
      split <;> rfl
    · rfl
  · rfl

/-! ## What they reply and leave -/

/-- The same reply, and the same shapes left. -/
structure SameAnswer (left right : Data × Reply) : Prop where
  keys : SameKeys left.1 right.1
  reply : left.2 = right.2

theorem exists_alike (same : SameKeys left right) :
    Option.Rel SameAnswer (runExists entry left) (runExists entry right) := by
  rw [runExists, reading, reading]
  cases entry.client with
  | none => exact .some ⟨same, rfl⟩
  | some protover =>
      have found : (fun key : Argument => (getData left key.bytes).isSome) =
          fun key => (getData right key.bytes).isSome :=
        funext fun key => same.isSome key.bytes
      simp only [found]
      split
      · exact .some ⟨same, rfl⟩
      · split
        · exact .some ⟨same, rfl⟩
        · exact .none

/-- TYPE tells no more than the type. -/
theorem type_alike (same : SameKeys left right) :
    Option.Rel SameAnswer (runType entry left) (runType entry right) := by
  rw [runType, reading, reading]
  cases entry.client with
  | none => exact .some ⟨same, rfl⟩
  | some protover =>
      rcases args : entry.args with _ | ⟨key, _ | ⟨second, rest⟩⟩
      · exact .some ⟨same, rfl⟩
      · rcases same.found key.bytes with ⟨first, second⟩ | ⟨former, latter, first, second, alike⟩
        · simp only [getData, first, second]
          exact .some ⟨same, rfl⟩
        · simp only [getData, first, second, alike.value.type]
          cases getRespTypeName latter.value.type with
          | none => exact .none
          | some element => exact .some ⟨same, rfl⟩
      · exact .some ⟨same, rfl⟩

/-- RENAME moves a value that it does not look at. -/
theorem rename_alike (same : SameKeys left right) :
    Option.Rel SameAnswer (runRename entry left) (runRename entry right) := by
  rw [runRename, runRename]
  split
  · next search name args =>
      rcases same.found search.bytes with ⟨first, second⟩ | ⟨former, latter, first, second, alike⟩
      · simp only [getData, first, second]
        exact .some ⟨same, rfl⟩
      · simp only [getData, first, second]
        exact .some ⟨(same.delete search.bytes).insert name.bytes alike, rfl⟩
  · exact .some ⟨same, rfl⟩

/-- Of a hash table HDEL tells no more than that it needs P_READ. -/
theorem hdel_alike (lacks : entry.permissions &&& Permission.read = 0)
    (same : SameKeys left right) :
    Option.Rel SameAnswer (runHdel entry left) (runHdel entry right) := by
  rw [runHdel, runHdel]
  split
  · next key field rest args =>
      rcases same.found key.bytes with ⟨first, second⟩ | ⟨former, latter, first, second, alike⟩
      · simp only [getData, first, second]
        exact .some ⟨same, rfl⟩
      · simp only [getData, first, second]
        rcases former with ⟨value, expiry⟩
        rcases latter with ⟨other, deadline⟩
        cases alike.value with
        | scalar types => exact .some ⟨same, rfl⟩
        | hashtable types =>
            simp only [lacks, if_true]
            exact .some ⟨same, rfl⟩
        | list types => exact .some ⟨same, rfl⟩
  · exact .some ⟨same, rfl⟩

theorem hset_alike (same : SameKeys left right) :
    Option.Rel SameAnswer (runHset mpf entry left) (runHset mpf entry right) := by
  rw [runHset, runHset]
  split
  · next key field rest args =>
      split
      · exact .some ⟨same, rfl⟩
      · rcases same.found key.bytes with ⟨first, second⟩ | ⟨former, latter, first, second, alike⟩
        · simp only [getData, first, second]
          exact .some ⟨same.insert key.bytes ⟨.refl _, rfl⟩, rfl⟩
        · simp only [getData, first, second]
          rcases former with ⟨value, expiry⟩
          rcases latter with ⟨other, deadline⟩
          have late := alike.expiry
          cases alike.value with
          | scalar types => exact .some ⟨same, rfl⟩
          | hashtable types =>
              exact .some ⟨same.assign first second ⟨.hashtable (setFields_types _ types), late⟩,
                rfl⟩
          | list types => exact .some ⟨same, rfl⟩
  · exact .some ⟨same, rfl⟩

theorem push_alike {name : String} {insert : ListValue → Scalar → ListValue}
    (inserts : ∀ (left right : ListValue) (value : Scalar),
      left.elements.map Scalar.type = right.elements.map Scalar.type →
        (insert left value).elements.map Scalar.type =
          (insert right value).elements.map Scalar.type)
    (same : SameKeys left right) :
    Option.Rel SameAnswer (runPush mpf name insert entry left)
      (runPush mpf name insert entry right) := by
  rw [runPush, runPush]
  split
  · next key input rest args =>
      rcases same.found key.bytes with ⟨first, second⟩ | ⟨former, latter, first, second, alike⟩
      · simp only [getData, first, second]
        exact .some ⟨same.insert key.bytes ⟨.refl _, rfl⟩, rfl⟩
      · simp only [getData, first, second]
        rcases former with ⟨value, expiry⟩
        rcases latter with ⟨other, deadline⟩
        have late := alike.expiry
        cases alike.value with
        | scalar types => exact .some ⟨same, rfl⟩
        | hashtable types => exact .some ⟨same, rfl⟩
        | list types =>
            exact .some ⟨same.assign first second
              ⟨.list (push_types inserts (input :: rest) types), late⟩, rfl⟩
  · exact .some ⟨same, rfl⟩

section Both

variable {first second : Data × Reply}

/-- DEL counts keys. -/
theorem del_alike (same : SameKeys left right) (ran : runDel entry left = some first)
    (also : runDel entry right = some second) : SameAnswer first second := by
  rw [runDel] at ran also
  split at ran
  · next empty =>
      rw [if_pos empty] at also
      cases ran
      cases also
      exact ⟨same, rfl⟩
  · next empty =>
      rw [if_neg empty, Option.bind_eq_bind, Option.bind_eq_some_iff] at also
      rw [Option.bind_eq_bind, Option.bind_eq_some_iff] at ran
      obtain ⟨⟨former, count⟩, ran, result⟩ := ran
      cases result
      obtain ⟨⟨latter, other⟩, also, result⟩ := also
      cases result
      have keys : SameKeys former latter := by
        intro name
        rw [get_deleteAll ran, get_deleteAll also]
        split
        · exact .none
        · exact same name
      have counts : count = other := by
        have before := same.count
        rw [count_deleteAll ran, count_deleteAll also, keys.count] at before
        omega
      exact ⟨keys, by rw [counts]⟩

/-- SET puts the same value into both. -/
theorem set_alike (same : SameKeys left right) (ran : runSet mpf clock entry left = some first)
    (also : runSet mpf clock entry right = some second) : SameAnswer first second := by
  rw [runSet] at ran also
  rcases args : entry.args with _ | ⟨key, _ | ⟨input, rest⟩⟩
  · rw [args] at ran also
    cases ran
    cases also
    exact ⟨same, rfl⟩
  · rw [args] at ran also
    cases ran
    cases also
    exact ⟨same, rfl⟩
  · rw [args] at ran also
    dsimp only at ran also
    rw [Option.bind_eq_bind, Option.bind_eq_some_iff] at ran also
    obtain ⟨⟨code, options, response⟩, parsed, ran⟩ := ran
    obtain ⟨result, again, also⟩ := also
    rw [parsed] at again
    cases again
    dsimp only at ran also
    split at ran
    · next valid =>
        subst valid
        rw [if_pos rfl] at also
        have plain := parseOptions_valid parsed
        rw [runSetWith_plain plain, Option.bind_eq_some_iff] at ran also
        obtain ⟨value, typed, ran⟩ := ran
        obtain ⟨other, again, also⟩ := also
        rw [typed] at again
        cases again
        rw [Option.bind_eq_some_iff] at ran also
        obtain ⟨former, ran, result⟩ := ran
        cases result
        obtain ⟨latter, also, result⟩ := also
        cases result
        refine ⟨fun name => ?_, rfl⟩
        rw [get_setData ran, get_setData also]
        split
        · exact .some ⟨.refl _, rfl⟩
        · exact same name
    · next invalid =>
        rw [if_neg invalid] at also
        cases ran
        cases also
        exact ⟨same, rfl⟩

end Both

/-! ## All of them -/

/-- A command that is permitted without P_READ does not ask for it. -/
theorem permissions_unread {permissions needed : Permissions}
    (permitted : permissions &&& needed = needed) (lacks : permissions &&& Permission.read = 0) :
    needed &&& Permission.read = 0 := by
  rw [← permitted, BitVec.and_comm permissions, BitVec.and_assoc, lacks]
  exact BitVec.and_zero

/-- They are defined for a client that is connected exactly where they survive. -/
theorem run_isSome_iff {command : KeyCommand} {protover : ProtocolVersion}
    (connected : entry.client = some protover)
    (permitted : entry.permissions &&& command.permissions = command.permissions)
    (lacks : entry.permissions &&& Permission.read = 0) :
    (command.run mpf clock entry data).isSome ↔ command.Survives mpf clock entry.args data := by
  have unread := permissions_unread permitted lacks
  cases command with
  | del => exact del_survives_iff
  | set => exact set_survives_iff
  | exist => exact exists_survives_iff connected
  | type => exact type_survives_iff connected
  | rename => exact iff_of_true rename_isSome trivial
  | hdel => exact iff_of_true (hdel_isSome lacks) trivial
  | hset => exact iff_of_true hset_isSome trivial
  | lpush => exact iff_of_true push_isSome trivial
  | rpush => exact iff_of_true push_isSome trivial
  | _ => exact absurd unread (by decide)

/-- Who gets an answer from both gets the same. -/
theorem run_alike {command : KeyCommand} {first second : Data × Reply}
    (same : SameKeys left right) (ran : command.run mpf clock entry left = some first)
    (also : command.run mpf clock entry right = some second)
    (permitted : entry.permissions &&& command.permissions = command.permissions)
    (lacks : entry.permissions &&& Permission.read = 0) : SameAnswer first second := by
  have unread := permissions_unread permitted lacks
  have both : ∀ {run : Run}, Option.Rel SameAnswer (run entry left) (run entry right) →
      run entry left = some first → run entry right = some second → SameAnswer first second := by
    intro run alike ran also
    rw [ran, also] at alike
    cases alike with
    | some answers => exact answers
  cases command with
  | del => exact del_alike same ran also
  | set => exact set_alike same ran also
  | exist => exact both (exists_alike same) ran also
  | type => exact both (type_alike same) ran also
  | rename => exact both (rename_alike same) ran also
  | hdel => exact both (hdel_alike lacks same) ran also
  | hset => exact both (hset_alike same) ran also
  | lpush => exact both (push_alike llInsertFront_types same) ran also
  | rpush => exact both (push_alike llInsertBack_types same) ran also
  | _ => exact absurd unread (by decide)

end TellyDB.Commands.Data
