import TellyDB.Commands.Data.Runs
import TellyDB.Database.Codec.Values

/-!
Owns when the stored values stay within what the database file can hold: no command
checks the size of the number, the string or the key that it stores.
-/

namespace TellyDB.Commands.Data

open Resp Server Database.Keyspace Lib.Transition
open TellyDB.Database (Scalar Table)
open TellyDB.Database.Codec (stringLimit integerBits ScalarStored)

variable {mpf : Mpf} {clock : Option Nat} {entry : Entry} {data : Data}

/-- The length of a key, a field name or a string fits. -/
def Short (string : Bytes) : Prop := string.length < stringLimit

def ScalarRepresentable : Scalar → Prop
  | .int number => number.natAbs < 2 ^ integerBits
  | .str string => Short string
  | _ => True

/-- The integers, strings and field names of a value fit. -/
def ValueRepresentable : Value → Prop
  | .scalar value => ScalarRepresentable value
  | .hashtable table => ∀ field value, table.get field = some value →
      Short field ∧ ScalarRepresentable value
  | .list list => ∀ element ∈ list.elements, ScalarRepresentable element

/-- What lies under a key fits, and so does the key. -/
def Representable (key : Bytes) (value : Value) : Prop := Short key ∧ ValueRepresentable value

/-! ## Steps that stay within the limits -/

/-- The integer under a key after as many turns of INCR or DECR. The first turn on an absent key
stores 0. -/
def CountWithin (data : Data) (key : Bytes) (change : Int) (turns : Nat) : Prop :=
  match (data.get key).map KeyValue.value with
  | none => Short key ∧ (change * (turns - 1 : Nat)).natAbs < 2 ^ integerBits
  | some (.scalar (.int number)) => (number + change * turns).natAbs < 2 ^ integerBits
  | some _ => True

/-- The integer under a key, 0 while it is absent, changed by an integer. -/
def SumWithin (data : Data) (key : Bytes) (change : Int) : Prop :=
  match (data.get key).map KeyValue.value with
  | none => Short key ∧ change.natAbs < 2 ^ integerBits
  | some (.scalar (.int number)) => (number + change).natAbs < 2 ^ integerBits
  | some _ => True

/-- The fields and values that HSET adds. -/
def FieldsWithin (mpf : Mpf) : List Argument → Table Scalar → Prop
  | name :: input :: rest, table =>
      (table.get name.bytes = none →
        Short name.bytes ∧ ScalarRepresentable (fieldValue mpf input)) ∧
      FieldsWithin mpf rest (table.insert name.bytes (fieldValue mpf input))
  | _, _ => True

/-- The values that LPUSH and RPUSH add. -/
def PushWithin (mpf : Mpf) (data : Data) (key : Bytes) (inputs : List Argument) : Prop :=
  match (data.get key).map KeyValue.value with
  | none => Short key ∧ ∀ input ∈ inputs, ScalarRepresentable (pushedValue mpf input)
  | some (.list _) => ∀ input ∈ inputs, ScalarRepresentable (pushedValue mpf input)
  | some _ => True

/-- What the command stores under the arguments and keys it is given fits. -/
def Within (mpf : Mpf) (clock : Option Nat) (command : KeyCommand) (entry : Entry) (data : Data) :
    Prop :=
  match command, entry.args with
  | .append, [key, arg] =>
      match (data.get key.bytes).map KeyValue.value with
      | none => Short key.bytes ∧ Short arg.bytes
      | some (.scalar (.str string)) => string.length + arg.bytes.length < stringLimit
      | some _ => True
  | .incr, args => ∀ key ∈ args, CountWithin data key.bytes 1 (occurrences args key.bytes)
  | .decr, args => ∀ key ∈ args, CountWithin data key.bytes (-1) (occurrences args key.bytes)
  | .incrby, [key, input] =>
      tryParseInteger input = true → SumWithin data key.bytes (mpzInitSetStr input.memory)
  | .decrby, [key, input] =>
      if tryParseInteger input then SumWithin data key.bytes (-mpzInitSetStr input.memory)
      else tryParseDouble input = true → data.get key.bytes = none → Short key.bytes
  | .rename, [search, name] => data.get search.bytes ≠ none → Short name.bytes
  | .set, key :: input :: rest => ∀ options response value,
      parseOptions clock rest ⟨false, false, false, false, none⟩
        ⟨input, .unknown, false, false, input.sstreq "true"⟩ =
          some (.validOptions, options, response) →
      storedScalar (setValue mpf options response) = some value →
        Short key.bytes ∧ ScalarRepresentable value
  | .hset, key :: field :: rest => (field :: rest).length % 2 = 0 →
      match (data.get key.bytes).map KeyValue.value with
      | none => Short key.bytes ∧ FieldsWithin mpf (field :: rest) (Table.create 16 capacity_positive)
      | some (.hashtable table) => FieldsWithin mpf (field :: rest) table
      | some _ => True
  | .lpush, key :: first :: rest | .rpush, key :: first :: rest =>
      PushWithin mpf data key.bytes (first :: rest)
  | _, _ => True

/-- A request that stays within the limits on the keys that it finds. -/
def RequestWithin (mpf : Mpf) (databases : Databases) (request : Request) : Prop :=
  ∀ command, request.command = some (.key command) → ∀ database,
    databases[request.index]? = some database →
      Within mpf request.clock command request.entry
        (ready request.clock command request.entry.args database.data)

/-! ## INCR and DECR -/

section Counting

variable {changeInt : Int → Int}
  {changeDouble : TellyDB.Database.Double → TellyDB.Database.Double} {change : Int}

theorem iterate_int (adds : ∀ number, changeInt number = number + change) (turns : Nat)
    (number : Int) (expiry : Option Nat) :
    (countOnce changeInt changeDouble)^[turns] (some ⟨.scalar (.int number), expiry⟩) =
      some ⟨.scalar (.int (number + change * turns)), expiry⟩ := by
  induction turns generalizing number with
  | zero => simp
  | succ turns inductionHypothesis =>
      rw [Function.iterate_succ_apply, countOnce, adds, inductionHypothesis]
      have sum : number + change + change * (turns : Int) =
          number + change * ((turns + 1 : Nat) : Int) := by
        push_cast
        ring
      rw [sum]

/-- A value that is no integer stays one, and fits. -/
theorem iterate_other (turns : Nat) {kv counted : KeyValue}
    (other : ∀ number, kv.value ≠ .scalar (.int number)) (fits : ValueRepresentable kv.value)
    (ran : (countOnce changeInt changeDouble)^[turns] (some kv) = some counted) :
    ValueRepresentable counted.value := by
  induction turns generalizing kv with
  | zero =>
      cases ran
      exact fits
  | succ turns inductionHypothesis =>
      rw [Function.iterate_succ_apply, countOnce.eq_def] at ran
      split at ran
      · next same => cases same
      · next number expiry same =>
          cases same
          exact absurd rfl (other number)
      · next number expiry same =>
          cases same
          refine inductionHypothesis ?_ ?_ ran
          · intro number
            exact fun same => nomatch same
          · trivial
      · next found _ _ same =>
          cases same
          exact inductionHypothesis other fits ran

/-- What INCR and DECR leave under a key they name. -/
theorem counted_representable (adds : ∀ number, changeInt number = number + change) {turns : Nat}
    {key : Bytes} {kv : KeyValue}
    (held : ∀ kv, data.get key = some kv → Representable key kv.value)
    (within : CountWithin data key change turns) (named : 1 ≤ turns)
    (counted : (countOnce changeInt changeDouble)^[turns] (data.get key) = some kv) :
    Representable key kv.value := by
  rw [CountWithin] at within
  cases found : data.get key with
  | none =>
      rw [found] at within counted
      obtain ⟨more, rfl⟩ : ∃ more, turns = more + 1 := ⟨turns - 1, by omega⟩
      rw [Function.iterate_succ_apply, countOnce, iterate_int adds] at counted
      cases counted
      refine ⟨within.1, ?_⟩
      show (0 + change * (more : Int)).natAbs < _
      rw [zero_add]
      exact within.2
  | some former =>
      rcases former with ⟨value, expiry⟩
      rcases held _ found with ⟨short, fits⟩
      rw [found] at within counted
      refine ⟨short, ?_⟩
      by_cases integer : ∃ number, value = .scalar (.int number)
      · rcases integer with ⟨number, rfl⟩
        rw [iterate_int adds] at counted
        cases counted
        exact within
      · exact iterate_other turns (fun number same => integer ⟨number, same⟩) fits counted

theorem occurrences_pos {args : List Argument} {key : Argument} (member : key ∈ args) :
    1 ≤ occurrences args key.bytes :=
  List.countP_pos_iff.mpr ⟨key, member, beq_self_eq_true _⟩

end Counting

/-! ## Collections -/

theorem setFields_representable {fields : List Argument} {table : Table Scalar}
    (fits : ValueRepresentable (.hashtable table)) (within : FieldsWithin mpf fields table) :
    ValueRepresentable (.hashtable (setFields mpf fields table)) := by
  induction fields, table using setFields.induct mpf with
  | case1 name input rest table inductionHypothesis =>
      rcases within with ⟨first, others⟩
      rw [setFields]
      refine inductionHypothesis ?_ others
      intro field value held
      rw [Table.get_insert] at held
      split at held
      · next same =>
          cases absent : table.get field with
          | none =>
              rw [absent] at held
              cases held
              rw [← same] at absent ⊢
              exact first absent
          | some former =>
              rw [absent] at held
              cases held
              exact fits field _ absent
      · exact fits field value held
  | case2 fields table short =>
      rw [setFields]
      · exact fits
      · exact short

theorem create_representable (capacity : Nat) (positive : 1 ≤ capacity) :
    ValueRepresentable (.hashtable (Table.create capacity positive)) := by
  intro field value held
  rw [Table.get_create] at held
  cases held

theorem deleteFields_representable {table : Table Scalar}
    (fits : ValueRepresentable (.hashtable table)) (names : List Argument) :
    ValueRepresentable (.hashtable (deleteFields names table)) := by
  rw [deleteFields]
  induction names generalizing table with
  | nil => exact fits
  | cons name rest inductionHypothesis =>
      rw [List.foldl_cons]
      refine inductionHypothesis ?_
      intro field value held
      rw [Table.get_delete] at held
      split at held
      · cases held
      · exact fits field value held

theorem push_representable {insert : ListValue → Scalar → ListValue}
    (inserts : ∀ list value element, element ∈ (insert list value).elements →
      element = value ∨ element ∈ list.elements)
    {inputs : List Argument} {list : ListValue} (fits : ValueRepresentable (.list list))
    (within : ∀ input ∈ inputs, ScalarRepresentable (pushedValue mpf input)) :
    ValueRepresentable (.list
      (inputs.foldl (fun list input => insert list (pushedValue mpf input)) list)) := by
  induction inputs generalizing list with
  | nil => exact fits
  | cons input rest inductionHypothesis =>
      rw [List.foldl_cons]
      refine inductionHypothesis ?_ fun other member => within other (List.mem_cons_of_mem _ member)
      intro element member
      rcases inserts list _ element member with rfl | former
      · exact within input List.mem_cons_self
      · exact fits element former

/-- What LPUSH and RPUSH leave under their key. -/
theorem pushed_representable {insert : ListValue → Scalar → ListValue}
    (inserts : ∀ list value element, element ∈ (insert list value).elements →
      element = value ∨ element ∈ list.elements)
    {key : Bytes} {inputs : List Argument} {list : ListValue}
    (held : ∀ kv, data.get key = some kv → Representable key kv.value)
    (within : PushWithin mpf data key inputs)
    (found : data.get key = none ∧ list = ListValue.llCreate ∨
      ∃ expiry, data.get key = some ⟨.list list, expiry⟩) :
    Representable key (.list
      (inputs.foldl (fun list input => insert list (pushedValue mpf input)) list)) := by
  rw [PushWithin] at within
  rcases found with ⟨absent, rfl⟩ | ⟨expiry, present⟩
  · simp only [absent, Option.map_none] at within
    exact ⟨within.1, push_representable inserts (fun element member =>
      absurd member List.not_mem_nil) within.2⟩
  · simp only [present, Option.map_some] at within
    rcases held _ present with ⟨short, fits⟩
    exact ⟨short, push_representable inserts fits within⟩

theorem mem_llInsertFront (list : ListValue) (value element : Scalar)
    (member : element ∈ (list.llInsertFront value).elements) :
    element = value ∨ element ∈ list.elements :=
  List.mem_cons.mp member

theorem mem_llInsertBack (list : ListValue) (value element : Scalar)
    (member : element ∈ (list.llInsertBack value).elements) :
    element = value ∨ element ∈ list.elements := by
  rcases List.mem_append.mp member with former | new
  · exact Or.inr former
  · exact Or.inl (List.mem_singleton.mp new)

theorem mem_llRemoveFront {list after : ListValue} (removed : list.llRemoveFront = some after)
    {element : Scalar} (member : element ∈ after.elements) : element ∈ list.elements := by
  rw [ListValue.llRemoveFront] at removed
  split at removed
  · cases removed
  · next first rest elements =>
      cases removed
      rw [elements]
      exact List.mem_cons_of_mem _ member

theorem mem_llRemoveBack {list after : ListValue} (removed : list.llRemoveBack = some after)
    {element : Scalar} (member : element ∈ after.elements) : element ∈ list.elements := by
  rw [ListValue.llRemoveBack] at removed
  split at removed
  · cases removed
  · cases removed
    exact List.mem_of_mem_dropLast member

/-! ## Steps and runs -/

/-- What a command stores within the limits fits. -/
theorem stores_representable {command : KeyCommand} {key : Bytes} {value : Value}
    (held : ∀ key kv, data.get key = some kv → Representable key kv.value)
    (within : Within mpf clock command entry data)
    (stores : Stores mpf clock entry data command key value) : Representable key value := by
  cases stores with
  | appendNew args absent =>
      rw [Within.eq_def, args] at within
      dsimp only at within
      simp only [absent, Option.map_none] at within
      exact within
  | append args found =>
      rw [Within.eq_def, args] at within
      dsimp only at within
      simp only [found, Option.map_some] at within
      refine ⟨(held _ _ found).1, ?_⟩
      rw [ValueRepresentable, ScalarRepresentable, Short, List.length_append]
      exact within
  | incr member counted =>
      exact counted_representable (fun _ => rfl) (held _) (within _ member)
        (occurrences_pos member) counted
  | decr member counted =>
      exact counted_representable (fun _ => rfl) (held _) (within _ member)
        (occurrences_pos member) counted
  | incrbyNew args integer absent =>
      rw [Within.eq_def, args] at within
      dsimp only at within
      have within := within integer
      simp only [SumWithin, absent, Option.map_none] at within
      exact within
  | incrbyInt args integer found =>
      rw [Within.eq_def, args] at within
      dsimp only at within
      have within := within integer
      simp only [SumWithin, found, Option.map_some] at within
      exact ⟨(held _ _ found).1, within⟩
  | incrbyDouble args found number => exact ⟨(held _ _ found).1, trivial⟩
  | decrbyNew args integer absent =>
      rw [Within.eq_def, args] at within
      dsimp only at within
      simp only [integer, if_true, SumWithin, absent, Option.map_none] at within
      exact within
  | decrbyInt args integer found =>
      rw [Within.eq_def, args] at within
      dsimp only at within
      simp only [integer, if_true, SumWithin, found, Option.map_some] at within
      exact ⟨(held _ _ found).1, within⟩
  | decrbyNewDouble args integer double absent =>
      rw [Within.eq_def, args] at within
      dsimp only at within
      rw [if_neg integer] at within
      exact ⟨within double absent, trivial⟩
  | decrbyDouble args found number => exact ⟨(held _ _ found).1, trivial⟩
  | rename args found =>
      rw [Within.eq_def, args] at within
      dsimp only at within
      refine ⟨within ?_, (held _ _ found).2⟩
      rw [found]
      exact Option.some_ne_none _
  | set args parsed typed =>
      rw [Within.eq_def, args] at within
      dsimp only at within
      exact within _ _ _ parsed typed
  | hsetNew args even absent =>
      rw [Within.eq_def, args] at within
      dsimp only at within
      have within := within even
      simp only [absent, Option.map_none] at within
      exact ⟨within.1, setFields_representable (create_representable _ _) within.2⟩
  | hset args even found =>
      rw [Within.eq_def, args] at within
      dsimp only at within
      have within := within even
      simp only [found, Option.map_some] at within
      exact ⟨(held _ _ found).1, setFields_representable (held _ _ found).2 within⟩
  | hdel args found nonempty =>
      exact ⟨(held _ _ found).1, deleteFields_representable (held _ _ found).2 _⟩
  | push direction args found =>
      rw [Within.eq_def, args] at within
      rcases direction with same | same
      · cases same
        exact pushed_representable mem_llInsertFront (held _) within found
      · cases same
        exact pushed_representable mem_llInsertBack (held _) within found
  | pop direction args found several removed =>
      refine ⟨(held _ _ found).1, fun element member => (held _ _ found).2 element ?_⟩
      rcases direction with same | same
      · cases same
        exact mem_llRemoveFront removed member
      · cases same
        exact mem_llRemoveBack removed member

theorem ready_representable (command : KeyCommand) (args : List Argument)
    (held : ∀ key kv, data.get key = some kv → Representable key kv.value) :
    ∀ key kv, (ready clock command args data).get key = some kv → Representable key kv.value := by
  intro key kv found
  rcases fewer_ready clock command args data key with same | removed
  · rw [same] at found
    exact held key kv found
  · rw [removed] at found
    cases found

theorem step_representable {databases after : Databases} {request : Request}
    (holds : Holds Representable databases) (within : RequestWithin mpf databases request)
    (stepped : step mpf databases request = some after) : Holds Representable after :=
  step_holds holds (fun command asked database held _ _ stores =>
    stores_representable
      (ready_representable command _ (holds database (List.mem_of_getElem? held)))
      (within command asked database held) stores) stepped

/-- In a run whose requests stay within the limits, every stored value does. -/
theorem values_representable {initial final : Databases} {requests : List Request}
    (holds : Holds Representable initial)
    (within : Guarded (step mpf) (RequestWithin mpf) initial requests)
    (ran : run (step mpf) initial requests = some final) : Holds Representable final :=
  guarded_run_invariant (fun _ _ _ holds guarded stepped =>
    step_representable holds guarded stepped) holds within ran

/-- A request without options of a client that may do everything. -/
def plainRequest (command : KeyCommand) (args : List Bytes) : Request :=
  ⟨some (.key command), ⟨some .resp3, args.map fun arg => ⟨arg, [0]⟩, Permission.all⟩, 0, none⟩

theorem values_representable_rpush :
    Holds Representable ((run (step Mpf.unused) [allocateDatabase (text "main")]
      [plainRequest .rpush [text "k", text "12"]]).get (by decide +kernel)) := by
  refine values_representable (empty_allocate _).holds ?_ (Option.some_get _).symm
  refine And.intro ?_ fun _ _ => trivial
  intro command asked database held
  cases asked
  cases held
  have absent : (ready none .rpush (plainRequest .rpush [text "k", text "12"]).entry.args
      (allocateDatabase (text "main")).data).get (text "k") = none := by
    have created : (allocateDatabase (text "main")).data.get (text "k") = none :=
      Table.get_create databaseInitialSize (by decide) _
    rcases fewer_ready none .rpush (plainRequest .rpush [text "k", text "12"]).entry.args
      (allocateDatabase (text "main")).data (text "k") with same | removed
    · rw [same, created]
    · exact removed
  have entered : (plainRequest .rpush [text "k", text "12"]).entry.args =
      [⟨text "k", [0]⟩, ⟨text "12", [0]⟩] := rfl
  rw [Within.eq_def, entered]
  dsimp only
  rw [entered] at absent
  rw [PushWithin, show (plainRequest .rpush [text "k", text "12"]).clock = none from rfl, absent]
  refine And.intro ?_ fun input member => ?_
  · show (text "k").length < stringLimit
    decide +kernel
  rw [List.mem_singleton] at member
  have integer : pushedValue Mpf.unused input = .int 12 := by
    rw [member]
    decide +kernel
  rw [integer]
  show (12 : Int).natAbs < 2 ^ integerBits
  decide +kernel

/-- Whether a value is an integer that does not fit. -/
def tooLarge : Value → Bool
  | .scalar (.int number) => decide (2 ^ integerBits ≤ number.natAbs)
  | _ => false

/-- SET stores an integer of 309 digits, beyond the limit. -/
theorem large_integer_stored : ¬∀ (initial final : Databases) (requests : List Request),
    Empty initial → run (step Mpf.unused) initial requests = some final →
      Holds Representable final := by
  intro all
  let large : Bytes := 0x39 :: List.replicate 308 0x30
  have stored : (run (step Mpf.unused) [allocateDatabase (text "main")]
      [plainRequest .set [text "k", large]]).map (fun final => (final.map fun database =>
        (database.data.get (text "k")).map fun kv => tooLarge kv.value)) = some [some true] := by
    decide +kernel
  rcases Option.map_eq_some_iff.mp stored with ⟨final, ran, read⟩
  rcases List.map_eq_singleton_iff.mp read with ⟨database, rfl, under⟩
  rcases Option.map_eq_some_iff.mp under with ⟨kv, held, beyond⟩
  rcases all _ _ _ (empty_allocate _) ran database List.mem_cons_self _ kv held with ⟨-, fits⟩
  rw [tooLarge.eq_def] at beyond
  split at beyond
  · next number integer =>
      rw [integer] at fits
      exact absurd fits (Nat.not_lt.mpr (of_decide_eq_true beyond))
  · cases beyond

end TellyDB.Commands.Data
