import TellyDB.Commands.Data.Expiries
import TellyDB.Commands.Data.Runs

/-!
Owns that no command leaves an empty list or an empty hash table: they are filled
by the command that creates them, and go with their last element or field, unless an
RPOP has left the last link of the list on a freed node.
-/

namespace TellyDB.Commands.Data

open Resp Server Database.Keyspace Lib.Transition
open TellyDB.Database (Scalar Table)

variable {mpf : Mpf} {clock : Option Nat} {entry : Entry} {data : Data}

/-- The value is no empty collection. -/
def NonEmpty : Value → Prop
  | .scalar _ => True
  | .hashtable table => 1 ≤ table.count
  | .list list => 1 ≤ list.size

/-! ## What the commands store -/

theorem get_setFields {fields : List Argument} {table : Table Scalar} {name : Bytes}
    {value : Scalar} (held : table.get name = some value) :
    (setFields mpf fields table).get name = some value := by
  induction fields, table using setFields.induct mpf with
  | case1 table field input rest inductionHypothesis =>
      rw [setFields]
      apply inductionHypothesis
      rw [Table.get_insert, held]
      split <;> rfl
  | case2 fields table short =>
      rw [setFields]
      · exact held
      · exact short

/-- HSET inserts at least one field. -/
theorem setFields_nonempty {field : Argument} {rest : List Argument}
    (even : (field :: rest).length % 2 = 0) (table : Table Scalar) :
    1 ≤ (setFields mpf (field :: rest) table).count := by
  rcases rest with _ | ⟨input, rest⟩
  · cases even
  · rw [setFields, Nat.one_le_iff_ne_zero, Table.count_ne_zero_iff]
    have inserted : ∃ value, (table.insert field.bytes (fieldValue mpf input)).get field.bytes =
        some value := by
      rw [Table.get_insert, if_pos rfl]
      cases table.get field.bytes with
      | none => exact ⟨_, rfl⟩
      | some value => exact ⟨value, rfl⟩
    rcases inserted with ⟨value, inserted⟩
    exact ⟨field.bytes, value, get_setFields inserted⟩

theorem size_push {insert : ListValue → Scalar → ListValue}
    (grows : ∀ list value, (insert list value).size = list.size + 1) (inputs : List Argument)
    (list : ListValue) :
    (inputs.foldl (fun list input => insert list (pushedValue mpf input)) list).size =
      list.size + inputs.length := by
  induction inputs generalizing list with
  | nil => rfl
  | cons input rest inductionHypothesis =>
      rw [List.foldl_cons, inductionHypothesis, grows, List.length_cons]
      omega

theorem size_llInsertFront (list : ListValue) (value : Scalar) :
    (list.llInsertFront value).size = list.size + 1 := rfl

theorem size_llInsertBack (list : ListValue) (value : Scalar) :
    (list.llInsertBack value).size = list.size + 1 := by
  rw [ListValue.size, ListValue.llInsertBack, List.length_append]
  rfl

theorem size_llRemoveFront {list after : ListValue} (removed : list.llRemoveFront = some after) :
    list.size = after.size + 1 := by
  rw [ListValue.llRemoveFront] at removed
  split at removed
  · cases removed
  · next first rest elements =>
      cases removed
      rw [ListValue.size, elements]
      rfl

theorem size_llRemoveBack {list after : ListValue} (removed : list.llRemoveBack = some after) :
    list.size = after.size + 1 := by
  rw [ListValue.llRemoveBack] at removed
  split at removed
  · cases removed
  · next nonempty =>
      cases removed
      have positive : 0 < list.elements.length := List.length_pos_iff.mpr nonempty
      rw [ListValue.size, ListValue.size, List.length_dropLast]
      omega

/-- INCR and DECR store numbers, or leave what they find. -/
theorem iterate_holds {property : Value → Prop} (scalars : ∀ value, property (.scalar value))
    {changeInt : Int → Int}
    {changeDouble : TellyDB.Database.Double → TellyDB.Database.Double} (turns : Nat)
    {current : Option KeyValue} (held : ∀ kv, current = some kv → property kv.value)
    (kv : KeyValue) (counted : (countOnce changeInt changeDouble)^[turns] current = some kv) :
    property kv.value := by
  induction turns generalizing current with
  | zero => exact held kv counted
  | succ turns inductionHypothesis =>
      rw [Function.iterate_succ_apply] at counted
      refine inductionHypothesis (fun kv counted => ?_) counted
      rw [countOnce.eq_def] at counted
      split at counted
      · cases counted
        exact scalars _
      · cases counted
        exact scalars _
      · cases counted
        exact scalars _
      · exact held kv counted

/-- A command that finds no empty collection stores none. -/
theorem stores_nonempty {command : KeyCommand} {key : Bytes} {value : Value}
    (held : ∀ key kv, data.get key = some kv → NonEmpty kv.value)
    (stores : Stores mpf clock entry data command key value) : NonEmpty value := by
  cases stores with
  | incr member counted => exact iterate_holds (fun _ => trivial) _ (held _) _ counted
  | decr member counted => exact iterate_holds (fun _ => trivial) _ (held _) _ counted
  | rename args found => exact held _ _ found
  | hsetNew args even absent => exact setFields_nonempty even _
  | hset args even found => exact setFields_nonempty even _
  | hdel args found nonempty => exact Nat.one_le_iff_ne_zero.mpr nonempty
  | push direction args found =>
      rcases direction with same | same
      · cases same
        rw [NonEmpty, size_push size_llInsertFront, List.length_cons]
        omega
      · cases same
        rw [NonEmpty, size_push size_llInsertBack, List.length_cons]
        omega
  | pop direction args found several removed =>
      have nonempty : 1 ≤ _ := held _ _ found
      rcases direction with same | same
      · cases same
        have sizes := size_llRemoveFront removed
        show 1 ≤ _
        omega
      · cases same
        have sizes := size_llRemoveBack removed
        show 1 ≤ _
        omega
  | _ => trivial

/-- The keys that expire before a command runs take no property from the others. -/
theorem ready_holds {property : Value → Prop} (command : KeyCommand) (args : List Argument)
    (held : ∀ key kv, data.get key = some kv → property kv.value) :
    ∀ key kv, (ready clock command args data).get key = some kv → property kv.value := by
  intro key kv found
  rcases fewer_ready clock command args data key with same | removed
  · rw [same] at found
    exact held key kv found
  · rw [removed] at found
    cases found

theorem step_nonempty {databases after : Databases} {request : Request}
    (holds : Holds (fun _ => NonEmpty) databases)
    (stepped : step mpf databases request = some after) : Holds (fun _ => NonEmpty) after :=
  step_holds holds (fun command _ database held _ _ stores =>
    stores_nonempty (ready_holds command _ (holds database (List.mem_of_getElem? held)))
      stores) stepped

/-- The elements of a list have types that replies can show. -/
def Typed : Value → Prop
  | .list list => ∀ value ∈ list.elements, value ≠ .unknown
  | _ => True

theorem pushedValue_typed (input : Argument) : pushedValue mpf input ≠ .unknown := by
  rw [pushedValue]
  split_ifs <;> exact Scalar.noConfusion

theorem push_typed {insert : ListValue → Scalar → ListValue}
    (inserts : ∀ list value element, element ∈ (insert list value).elements →
      element = value ∨ element ∈ list.elements) (inputs : List Argument) {list : ListValue}
    (typed : Typed (.list list)) :
    Typed (.list (inputs.foldl (fun list input => insert list (pushedValue mpf input)) list)) := by
  induction inputs generalizing list with
  | nil => exact typed
  | cons input rest inductionHypothesis =>
      refine inductionHypothesis fun element member => ?_
      rcases inserts list _ element member with same | before
      · rw [same]
        exact pushedValue_typed input
      · exact typed element before

theorem llRemoveFront_subset {list after : ListValue} (removed : list.llRemoveFront = some after) :
    after.elements ⊆ list.elements := by
  rw [ListValue.llRemoveFront] at removed
  split at removed
  · cases removed
  · next first rest elements =>
      cases removed
      rw [elements]
      exact List.subset_cons_self first rest

theorem llRemoveBack_subset {list after : ListValue} (removed : list.llRemoveBack = some after) :
    after.elements ⊆ list.elements := by
  rw [ListValue.llRemoveBack] at removed
  split at removed
  · cases removed
  · cases removed
    exact List.dropLast_subset list.elements

theorem stores_typed {command : KeyCommand} {key : Bytes} {value : Value}
    (held : ∀ key kv, data.get key = some kv → Typed kv.value)
    (stores : Stores mpf clock entry data command key value) : Typed value := by
  cases stores with
  | incr member counted => exact iterate_holds (fun _ => trivial) _ (held _) _ counted
  | decr member counted => exact iterate_holds (fun _ => trivial) _ (held _) _ counted
  | rename args found => exact held _ _ found
  | @push command insert key first rest list direction args found =>
      have typed : Typed (.list list) := by
        rcases found with ⟨-, rfl⟩ | ⟨expiry, found⟩
        · exact fun element member => absurd member List.not_mem_nil
        · exact held _ _ found
      rcases direction with same | same
      · cases same
        exact push_typed (fun _ _ _ member => List.mem_cons.mp member) _ typed
      · cases same
        refine push_typed (fun list value element member => ?_) _ typed
        rcases List.mem_append.mp member with before | last
        · exact .inr before
        · exact .inl (List.mem_singleton.mp last)
  | pop direction args found several removed =>
      have typed := held _ _ found
      rcases direction with same | same
      · cases same
        exact fun element member => typed element (llRemoveFront_subset removed member)
      · cases same
        exact fun element member => typed element (llRemoveBack_subset removed member)
  | _ => trivial

theorem step_typed {databases after : Databases} {request : Request}
    (holds : Holds (fun _ => Typed) databases)
    (stepped : step mpf databases request = some after) : Holds (fun _ => Typed) after :=
  step_holds holds (fun command _ database held _ _ stores =>
    stores_typed (ready_holds command _ (holds database (List.mem_of_getElem? held)))
      stores) stepped

/-! ## What is taken away -/

/-- The command takes the last element or field of the collection under this key. -/
def TakesLast (command : KeyCommand) (entry : Entry) (data : Data) (key : Argument) : Prop :=
  match command, (data.get key.bytes).map KeyValue.value with
  | .lpop, some (.list list) | .rpop, some (.list list) => entry.args = [key] ∧ list.size = 1
  | .hdel, some (.hashtable table) =>
      entry.permissions &&& Permission.read ≠ 0 ∧ ∃ names, entry.args = key :: names ∧
        names ≠ [] ∧ ∀ field value, table.get field = some value →
          ∃ name ∈ names, name.bytes = field
  | _, _ => False

/-- EXISTS, TYPE and LLEN tell every client that the key is absent. -/
def ToldAbsent (data : Data) (key : Argument) : Prop :=
  ∀ (protover : ProtocolVersion) (permissions : Permissions),
    let entry : Entry := ⟨some protover, [key], permissions⟩
    runExists entry data = some (data, .array 3 [.simple "existed key count is 0",
      .simple "not existed key count is 1", .simple "not exist"]) ∧
    runType entry data = some (data, .null) ∧ runLlen entry data = some (data, .integer 0)

theorem toldAbsent {key : Argument} (absent : data.get key.bytes = none) :
    ToldAbsent data key := by
  intro protover permissions
  refine ⟨?_, ?_, ?_⟩
  · simp [runExists, reading, getData, absent]
    decide
  · simp [runType, reading, getData, absent]
  · simp [runLlen, reading, getData, absent]

theorem get_deleteFields (names : List Argument) (table : Table Scalar) (field : Bytes) :
    (deleteFields names table).get field =
      if ∃ name ∈ names, name.bytes = field then none else table.get field := by
  rw [deleteFields]
  induction names generalizing table with
  | nil => simp
  | cons name rest inductionHypothesis =>
      rw [List.foldl_cons, inductionHypothesis, Table.get_delete]
      by_cases here : name.bytes = field <;> simp [here]

/-- The key holds no list whose `end->next` is a freed node. -/
def Freeable (data : Data) (key : Argument) : Prop :=
  ∀ list expiry, data.get key.bytes = some ⟨.list list, expiry⟩ → list.backFreed = false

theorem deleteData_isSome {key : Argument} :
    (deleteData data key.bytes).isSome ↔ Freeable data key := by
  rw [deleteData_eq, Freeable]
  cases held : data.get key.bytes with
  | none => simp
  | some kv =>
      obtain ⟨value, expiry⟩ := kv
      cases value <;> simp [freeValue, ListValue.llFree, Option.isSome_iff_exists]

/-- LPOP and RPOP answer with an element that is there. -/
theorem popReply_isSome {pointer : Option Scalar} (present : ∃ value, pointer = some value ∧
    value ≠ .unknown) : ∃ reply, popReply entry pointer = some reply := by
  obtain ⟨value, rfl, typed⟩ := present
  rw [popReply]
  split
  · exact ⟨_, rfl⟩
  · cases value with
    | unknown => exact absurd rfl typed
    | _ => exact ⟨_, rfl⟩

/-- A pop of the last element deletes the key, which frees the list. -/
theorem pop_last {name : String} {pointer : ListValue → Option Scalar}
    {remove : ListValue → Option ListValue} {key : Argument} {list : ListValue}
    {expiry : Option Nat} (args : entry.args = [key])
    (held : data.get key.bytes = some ⟨.list list, expiry⟩) (single : list.size = 1)
    (present : ∃ value, pointer list = some value ∧ value ≠ .unknown) :
    ∃ reply, runPop name pointer remove entry data =
      (deleteData data key.bytes).map fun deleted => (deleted.1, reply) := by
  obtain ⟨reply, answered⟩ : ∃ reply, popReply entry (pointer list) = some reply :=
    popReply_isSome present
  refine ⟨reply, ?_⟩
  rw [runPop, args]
  simp only [getData, held, answered, Option.bind_eq_bind, Option.bind_some, if_pos single]
  cases deleteData data key.bytes with
  | none => rfl
  | some deleted => rfl

/-- HDEL of the last field deletes the key, under which it has put the empty table. -/
theorem hdel_last {key : Argument} {names : List Argument} {table : Table Scalar}
    {expiry : Option Nat}
    (permitted : entry.permissions &&& Permission.read ≠ 0) (args : entry.args = key :: names)
    (nonempty : names ≠ []) (held : data.get key.bytes = some ⟨.hashtable table, expiry⟩)
    (all : ∀ field value, table.get field = some value → ∃ name ∈ names, name.bytes = field) :
    ∃ reply emptied, emptied.get key.bytes = some ⟨.hashtable (deleteFields names table), expiry⟩ ∧
      runHdel entry data =
        (deleteData emptied key.bytes).map fun deleted => (deleted.1, reply) := by
  rcases names with _ | ⟨field, rest⟩
  · exact absurd rfl nonempty
  · have emptied : (deleteFields (field :: rest) table).count = 0 := by
      by_contra filled
      rcases (Table.count_ne_zero_iff _).mp filled with ⟨name, value, left⟩
      rw [get_deleteFields] at left
      split at left
      · cases left
      · next unlisted => exact unlisted (all name value left)
    refine ⟨entry.answer (.integer (table.count - (deleteFields (field :: rest) table).count)),
      changeValue data key.bytes ⟨.hashtable table, expiry⟩
        (.hashtable (deleteFields (field :: rest) table)), ?_, ?_⟩
    · rw [changeValue, Table.get_assign held, if_pos rfl]
    · rw [runHdel, args]
      simp only [getData, held, if_neg permitted, if_pos emptied]
      cases deleteData (changeValue data key.bytes ⟨.hashtable table, expiry⟩
        (.hashtable (deleteFields (field :: rest) table))) key.bytes with
      | none => rfl
      | some deleted => rfl

/-- Who takes the last element or field deletes the key, with a list that may be freed if the one
before may. -/
theorem takesLast_deletes {command : KeyCommand} {key : Argument}
    (takes : TakesLast command entry data key)
    (typed : ∀ key kv, data.get key = some kv → Typed kv.value) :
    ∃ reply emptied, (Freeable emptied key ↔ Freeable data key) ∧
      command.run mpf clock entry data =
        (deleteData emptied key.bytes).map fun deleted => (deleted.1, reply) := by
  rw [TakesLast.eq_def] at takes
  split at takes
  · next list found =>
      rcases Option.map_eq_some_iff.mp found with ⟨⟨value, expiry⟩, held, same⟩
      cases same
      obtain ⟨element, only⟩ := List.length_eq_one_iff.mp takes.2
      have known : element ≠ .unknown := typed _ _ held element (by simp [only])
      have first : list.elements.head? = some element := by rw [only, List.head?_cons]
      obtain ⟨reply, ran⟩ : ∃ reply, runLpop entry data =
          (deleteData data key.bytes).map fun deleted => (deleted.1, reply) :=
        pop_last takes.1 held takes.2 ⟨element, first, known⟩
      exact ⟨reply, data, Iff.rfl, ran⟩
  · next list found =>
      rcases Option.map_eq_some_iff.mp found with ⟨⟨value, expiry⟩, held, same⟩
      cases same
      obtain ⟨element, only⟩ := List.length_eq_one_iff.mp takes.2
      have known : element ≠ .unknown := typed _ _ held element (by simp [only])
      have last : list.elements.getLast? = some element := by rw [only, List.getLast?_singleton]
      obtain ⟨reply, ran⟩ : ∃ reply, runRpop entry data =
          (deleteData data key.bytes).map fun deleted => (deleted.1, reply) :=
        pop_last takes.1 held takes.2 ⟨element, last, known⟩
      exact ⟨reply, data, Iff.rfl, ran⟩
  · next found =>
      rcases Option.map_eq_some_iff.mp found with ⟨⟨value, expiry⟩, held, same⟩
      cases same
      rcases takes with ⟨permitted, names, args, nonempty, all⟩
      obtain ⟨reply, emptied, there, ran⟩ := hdel_last permitted args nonempty held all
      refine ⟨reply, emptied, iff_of_true ?_ ?_, ran⟩
      · intro list expiry found
        rw [there] at found
        cases found
      · intro list expiry found
        rw [held] at found
        cases found
  · exact takes.elim

/-- What the claim needs of a command that takes the last element or field: it ends, and the key is
absent behind it. -/
def LeavesAbsent (outcome : Option Outcome) (index : Nat) (key : Argument) : Prop :=
  ∃ left after, outcome = some left ∧ left.databases[index]? = some after ∧
    ToldAbsent after.data key

/-- The key is absent behind the command exactly if the list it frees ends in NULL. -/
theorem takesLast_iff {command : KeyCommand} {key : Argument} {index : Nat}
    {databases : Databases} {database : Database}
    (permitted : entry.permissions &&& command.permissions = command.permissions)
    (held : databases[index]? = some database)
    (takes : TakesLast command entry (ready clock command entry.args database.data) key)
    (typed : Holds (fun _ => Typed) databases) :
    LeavesAbsent (executeTransaction clock (DataCommand.command mpf (.key command)) entry index
        databases) index key ↔
      Freeable (ready clock command entry.args database.data) key := by
  have known : ∀ key kv, (ready clock command entry.args database.data).get key = some kv →
      Typed kv.value :=
    ready_holds command entry.args (typed database (List.mem_of_getElem? held))
  obtain ⟨reply, emptied, same, ran⟩ := takesLast_deletes takes known
  rw [← same, ← deleteData_isSome, LeavesAbsent, execute_key permitted, held, Option.bind_some, ran]
  constructor
  · rintro ⟨left, after, ended, -, -⟩
    cases deleted : deleteData emptied key.bytes with
    | none =>
        rw [deleted] at ended
        cases ended
    | some _ => rfl
  · intro frees
    obtain ⟨⟨data, there⟩, deleted⟩ := Option.isSome_iff_exists.mp frees
    rw [deleted]
    refine ⟨_, { database with data }, rfl, ?_, toldAbsent ?_⟩
    · show (setDataAt databases index data)[index]? = _
      rw [setDataAt, List.getElem?_modify_eq, held]
      rfl
    · rw [get_deleteData deleted, if_pos rfl]

/-! ## Runs -/

/-- In every state that commands reach from empty databases, no list and no hash table is empty,
so the nodes that LPOP and RPOP read are there; and a command that takes the last element or field
of a key leaves the key absent exactly if it frees no list whose last link is on a freed node. -/
theorem collections_nonempty {initial final : Databases} {requests : List Request}
    (empty : Empty initial) (ran : run (step mpf) initial requests = some final) :
    Holds (fun _ => NonEmpty) final ∧
    ∀ clock command entry index database, final[index]? = some database →
      entry.permissions &&& command.permissions = command.permissions →
        (∀ key list expiry, (ready clock command entry.args database.data).get key =
          some ⟨.list list, expiry⟩ →
            list.elements.head?.isSome ∧ list.elements.getLast?.isSome) ∧
        ∀ key, TakesLast command entry (ready clock command entry.args database.data) key →
          (LeavesAbsent (executeTransaction clock (DataCommand.command mpf (.key command)) entry
              index final) index key ↔
            Freeable (ready clock command entry.args database.data) key) := by
  obtain ⟨holds, typed⟩ : Holds (fun _ => NonEmpty) final ∧ Holds (fun _ => Typed) final :=
    run_invariant (fun _ _ _ holds stepped =>
      And.intro (step_nonempty holds.1 stepped) (step_typed holds.2 stepped))
      ⟨empty.holds, empty.holds⟩ ran
  refine ⟨holds, fun clock command entry index database held permitted =>
    ⟨fun key list expiry found => ?_, fun key takes => takesLast_iff permitted held takes typed⟩⟩
  have nonempty : 1 ≤ list.elements.length := ready_holds command entry.args
    (holds database (List.mem_of_getElem? held)) key _ found
  have present : list.elements ≠ [] := List.length_pos_iff.mp nonempty
  exact ⟨List.isSome_head?.mpr present, List.getLast?_isSome.mpr present⟩

/-- A command of a client that may do everything, on the first database. -/
def sampleRequest (command : KeyCommand) (args : List String) : Request :=
  ⟨some (.key command), ⟨some .resp3, args.map fun arg => ⟨text arg, [0]⟩, Permission.all⟩, 0, none⟩

/-- RPUSH of two elements and a field that goes again. -/
def sampleRequests : List Request :=
  [sampleRequest .rpush ["k", "a", "b"], sampleRequest .lpop ["k"],
    sampleRequest .hset ["h", "f", "1"], sampleRequest .hdel ["h", "f"]]

theorem collections_nonempty_sample :
    Holds (fun _ => NonEmpty) ((run (step Mpf.unused) [allocateDatabase (text "main")]
      sampleRequests).get (by decide +kernel)) :=
  (collections_nonempty (empty_allocate _) (Option.some_get _).symm).1

/-- RPUSH of five elements, and an RPOP of each but the first. -/
def poppedRequests : List Request :=
  sampleRequest .rpush ["list", "value_a", "value_b", "value_c", "value_d", "value_e"] ::
    List.replicate 4 (sampleRequest .rpop ["list"])

/-- A list of one element. -/
def isSingle : Value → Bool
  | .list list => list.size == 1
  | _ => false

/-- The RPOP of the last element follows the link to the node that the RPOP before it has freed. -/
theorem collections_nonempty_fails :
    ∃ final database, run (step Mpf.unused) [allocateDatabase (text "main")] poppedRequests =
        some final ∧ final[0]? = some database ∧
      let entry := (sampleRequest .rpop ["list"]).entry
      TakesLast .rpop entry (ready none .rpop entry.args database.data) ⟨text "list", [0]⟩ ∧
        ¬LeavesAbsent (executeTransaction none (DataCommand.command Mpf.unused (.key .rpop)) entry 0
          final) 0 ⟨text "list", [0]⟩ := by
  have crashes : (run (step Mpf.unused) [allocateDatabase (text "main")] poppedRequests).any
      (fun final => final[0]?.any fun database =>
        ((database.data.get (text "list")).map KeyValue.value).any isSingle &&
        (executeTransaction none (DataCommand.command Mpf.unused (.key .rpop))
          (sampleRequest .rpop ["list"]).entry 0 final).isNone) = true := by
    decide +kernel
  obtain ⟨final, ran, crashes⟩ := (Option.any_eq_true _ _).mp crashes
  obtain ⟨database, held, crashes⟩ := (Option.any_eq_true _ _).mp crashes
  obtain ⟨single, crashes⟩ := Bool.and_eq_true_iff.mp crashes
  refine ⟨final, database, ran, held, ?_, ?_⟩
  · rw [ready_unread]
    obtain ⟨value, found, single⟩ := (Option.any_eq_true _ _).mp single
    cases value with
    | list list =>
        rw [TakesLast.eq_def, found]
        exact ⟨rfl, eq_of_beq single⟩
    | scalar _ => cases single
    | hashtable _ => cases single
  · rintro ⟨left, after, ended, -, -⟩
    rw [ended] at crashes
    cases crashes

end TellyDB.Commands.Data
