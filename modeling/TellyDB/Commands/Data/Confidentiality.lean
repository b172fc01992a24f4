import TellyDB.Commands.Data.Unread
import TellyDB.Commands.Data.Runs
import TellyDB.Lib.Unwinding

/-!
Owns what a client without P_READ can tell of the values: between two servers whose
databases differ in nothing but their values no reply makes a difference, as long as
neither of them frees a list whose last link an RPOP has left on a freed node, and EXISTS
has room for its lines.
-/

namespace TellyDB.Commands.Data

open Resp Server Database.Keyspace Lib.Unwinding
open TellyDB.Database (Table)

variable {mpf : Mpf} {mask : Permissions}

/-! ## Servers -/

/-- The databases, and the place of the one that each client has selected. -/
structure Store where
  databases : Databases
  selected : Nat → Nat
  present : ∀ client, selected client < databases.length

/-- A command that a client sends, and the time at which it is executed. -/
structure Call where
  client : Nat
  protover : ProtocolVersion
  command : DataCommand
  args : List Argument
  clock : Option Nat

def Call.entry (mask : Permissions) (call : Call) : Entry :=
  ⟨some call.protover, call.args, mask⟩

/-- The command, by a client whose password grants `mask`. -/
def Call.execute (mpf : Mpf) (mask : Permissions) (call : Call) (place : Nat)
    (databases : Databases) : Option Outcome :=
  executeTransaction call.clock (call.command.command mpf) (call.entry mask) place databases

/-- The password grants what the command needs. -/
def Call.Permitted (mpf : Mpf) (mask : Permissions) (call : Call) : Prop :=
  mask &&& (call.command.command mpf).permissions = (call.command.command mpf).permissions

/-- What a client has selected once a command is done. -/
def Outcome.selects (outcome : Outcome) (client : Nat) (selected : Nat → Nat) : Nat → Nat :=
  match outcome.selected with
  | none => selected
  | some place => Function.update selected client place

/-- What a command does that is permitted. -/
theorem Call.execute_eq {call : Call} (permitted : call.Permitted mpf mask) (place : Nat)
    (databases : Databases) : call.execute mpf mask place databases =
      match call.command with
      | .key command => (databases[place]?).bind fun database =>
          (command.run mpf call.clock (call.entry mask)
            (ready call.clock command call.args database.data)).map
              fun after => ⟨setDataAt databases place after.1, after.2, none⟩
      | .dbsize => runDbsize (call.entry mask) place databases
      | .flushall => runFlushall (call.entry mask) place databases
      | .flushdb => onDatabase runFlushdb (call.entry mask) place databases
      | .select => runSelect (call.entry mask) place databases := by
  obtain ⟨client, protover, command, args, clock⟩ := call
  cases command with
  | key command => exact execute_key permitted
  | dbsize => exact execute_permitted permitted
  | flushall => exact execute_permitted permitted
  | flushdb => exact execute_permitted permitted
  | select => exact execute_permitted permitted

/-- A command that is not permitted is refused with one and the same message. -/
theorem Call.execute_denied {call : Call} (denied : ¬call.Permitted mpf mask) (place : Nat)
    (databases : Databases) : call.execute mpf mask place databases =
      some ⟨databases, .error "No permissions to execute this command", none⟩ :=
  if_pos denied

/-- A command only adds databases, and selects one of them. -/
structure Outcome.Extends (databases : Databases) (outcome : Outcome) : Prop where
  length_le : databases.length ≤ outcome.databases.length
  selected_lt : ∀ place, outcome.selected = some place → place < outcome.databases.length

theorem Outcome.Extends.unselected {databases after : Databases} (reply : Reply)
    (length_le : databases.length ≤ after.length) :
    Outcome.Extends databases ⟨after, reply, none⟩ := by
  refine ⟨length_le, fun place selects => ?_⟩
  cases selects

theorem setDataAt_extends (databases : Databases) (place : Nat) (data : Data) (reply : Reply) :
    Outcome.Extends databases ⟨setDataAt databases place data, reply, none⟩ :=
  .unselected reply (by rw [setDataAt, List.length_modify])

theorem onDatabase_extends {run : Run} {entry : Entry} {place : Nat} {databases : Databases}
    {outcome : Outcome} (ran : onDatabase run entry place databases = some outcome) :
    Outcome.Extends databases outcome := by
  rw [onDatabase_eq, Option.bind_eq_some_iff] at ran
  obtain ⟨database, held, ran⟩ := ran
  obtain ⟨⟨data, reply⟩, ran, rfl⟩ := Option.map_eq_some_iff.mp ran
  exact setDataAt_extends databases place data reply

theorem getDatabase_lt {databases : Databases} {name : Bytes} {place : Nat}
    (found : getDatabase databases name = some (some place)) : place < databases.length := by
  rw [getDatabase] at found
  split at found
  · cases found
  · next last held =>
      have filled : databases ≠ [] := by
        rintro rfl
        cases held
      have positive := List.length_pos_iff.mpr filled
      rw [Option.some.injEq] at found
      split at found
      · cases found
        omega
      · cases found

theorem select_extends {entry : Entry} {place : Nat} {databases : Databases} {outcome : Outcome}
    (ran : runSelect entry place databases = some outcome) :
    Outcome.Extends databases outcome := by
  rw [runSelect] at ran
  split at ran
  · cases ran
    exact .unselected _ (Nat.le_refl _)
  · split at ran
    · rw [Option.bind_eq_bind, Option.bind_eq_some_iff] at ran
      obtain ⟨found, searched, ran⟩ := ran
      split at ran
      · cases ran
        refine ⟨Nat.le_refl _, fun place same => ?_⟩
        cases same
        exact getDatabase_lt searched
      · cases ran
        refine ⟨by simp, fun place same => ?_⟩
        cases same
        simp
    · cases ran
      exact .unselected _ (Nat.le_refl _)

theorem flushall_extends {entry : Entry} {place : Nat} {databases : Databases}
    {outcome : Outcome} (ran : runFlushall entry place databases = some outcome) :
    Outcome.Extends databases outcome := by
  rw [runFlushall, Option.bind_eq_bind, Option.bind_eq_some_iff] at ran
  obtain ⟨after, flushed, same⟩ := ran
  cases same
  exact .unselected _ (by rw [flushall_eq flushed, List.length_map])

theorem dbsize_extends {entry : Entry} {place : Nat} {databases : Databases} {outcome : Outcome}
    (ran : runDbsize entry place databases = some outcome) :
    Outcome.Extends databases outcome := by
  rw [runDbsize] at ran
  split at ran
  · cases ran
    exact .unselected _ (Nat.le_refl _)
  · rw [Option.bind_eq_bind, Option.bind_eq_some_iff] at ran
    obtain ⟨size, -, ran⟩ := ran
    split at ran
    · cases ran
      exact .unselected _ (Nat.le_refl _)
    · cases ran
      exact .unselected _ (Nat.le_refl _)

theorem execute_extends {call : Call} {place : Nat} {databases : Databases} {outcome : Outcome}
    (ran : call.execute mpf mask place databases = some outcome) :
    Outcome.Extends databases outcome := by
  by_cases permitted : call.Permitted mpf mask
  · rw [Call.execute_eq permitted] at ran
    split at ran
    · rw [Option.bind_eq_some_iff] at ran
      obtain ⟨database, held, ran⟩ := ran
      obtain ⟨⟨data, reply⟩, ran, rfl⟩ := Option.map_eq_some_iff.mp ran
      exact setDataAt_extends databases place data reply
    · exact dbsize_extends ran
    · exact flushall_extends ran
    · exact onDatabase_extends ran
    · exact select_extends ran
  · rw [Call.execute_denied permitted] at ran
    cases ran
    exact .unselected _ (Nat.le_refl _)

theorem Outcome.Extends.selects_lt {databases : Databases} {outcome : Outcome}
    (grown : Outcome.Extends databases outcome) {selected : Nat → Nat}
    (present : ∀ client, selected client < databases.length) (client other : Nat) :
    outcome.selects client selected other < outcome.databases.length := by
  have former := Nat.lt_of_lt_of_le (present other) grown.length_le
  rw [Outcome.selects]
  cases selects : outcome.selected with
  | none => exact former
  | some place =>
      dsimp only
      rw [Function.update_apply]
      split
      · exact grown.selected_lt place selects
      · exact former

/-- One command of a client whose password grants `mask`. -/
def Store.serve (mpf : Mpf) (mask : Permissions) (store : Store) (call : Call) :
    Option (Store × Reply) :=
  match ran : call.execute mpf mask (store.selected call.client) store.databases with
  | none => none
  | some outcome =>
      some (⟨outcome.databases, outcome.selects call.client store.selected,
        (execute_extends ran).selects_lt store.present call.client⟩, outcome.reply)

theorem Store.serve_isSome {store : Store} {call : Call} :
    (store.serve mpf mask call).isSome ↔
      (call.execute mpf mask (store.selected call.client) store.databases).isSome := by
  rw [Store.serve]
  split
  · next undefined => simp [undefined]
  · next outcome ran => simp [ran]

theorem Store.serve_eq_some {store : Store} {call : Call} {answered : Store × Reply}
    (served : store.serve mpf mask call = some answered) :
    ∃ outcome, call.execute mpf mask (store.selected call.client) store.databases = some outcome ∧
      answered.1.databases = outcome.databases ∧
      answered.1.selected = outcome.selects call.client store.selected ∧
      answered.2 = outcome.reply := by
  rw [Store.serve] at served
  split at served
  · cases served
  · next outcome ran =>
      cases served
      exact ⟨outcome, ran, rfl, rfl, rfl⟩

/-! ## Two servers -/

/-- Databases of one name and the same shapes. -/
structure SameShapes (left right : Database) : Prop where
  name : left.name = right.name
  keys : SameKeys left.data right.data

/-- Servers that differ in what their values hold only. -/
structure SameStore (left right : Store) : Prop where
  databases : left.databases.Forall₂ SameShapes right.databases
  selected : left.selected = right.selected

/-- What a client is told and what it selects is the same, and so are the shapes left. -/
structure SameOutcome (left right : Outcome) : Prop where
  databases : left.databases.Forall₂ SameShapes right.databases
  reply : left.reply = right.reply
  selected : left.selected = right.selected

section Databases

variable {left right : Databases} {place : Nat}

theorem found_alike (same : left.Forall₂ SameShapes right) (place : Nat) :
    Option.Rel SameShapes left[place]? right[place]? := by
  induction same generalizing place with
  | nil => exact .none
  | cons alike others inductionHypothesis =>
      cases place with
      | zero => exact .some alike
      | succ place => exact inductionHypothesis place

theorem setDataAt_alike (same : left.Forall₂ SameShapes right) {first second : Data}
    (keys : SameKeys first second) :
    (setDataAt left place first).Forall₂ SameShapes (setDataAt right place second) := by
  rw [setDataAt, setDataAt]
  induction same generalizing place with
  | nil =>
      rw [List.modify_nil, List.modify_nil]
      exact .nil
  | cons alike others inductionHypothesis =>
      cases place with
      | zero => exact .cons ⟨alike.name, keys⟩ others
      | succ place => exact .cons alike inductionHypothesis

theorem getDatabase_alike (same : left.Forall₂ SameShapes right) (name : Bytes) :
    getDatabase left name = getDatabase right name := by
  have last : Option.Rel SameShapes left.getLast? right.getLast? := by
    rw [List.getLast?_eq_getElem?, List.getLast?_eq_getElem?, same.length_eq]
    exact found_alike same _
  rw [getDatabase, getDatabase, same.length_eq]
  cases first : left.getLast? with
  | none =>
      rw [first] at last
      generalize right.getLast? = other at last
      cases last
      rfl
  | some former =>
      rw [first] at last
      generalize right.getLast? = other at last
      cases last with
      | some alike =>
          simp only [alike.name]

theorem cleared_alike (same : left.Forall₂ SameShapes right) :
    (left.map fun database => { database with data := database.data.clear }).Forall₂ SameShapes
      (right.map fun database => { database with data := database.data.clear }) := by
  rw [List.forall₂_map_left_iff, List.forall₂_map_right_iff]
  exact same.imp fun _ _ alike => ⟨alike.name, SameKeys.clear⟩

end Databases

/-! ## One command -/

/-- The command, where it is permitted, survives on the keys that it finds, and FLUSHDB and FLUSHALL
free no list whose `end->next` is a freed node. -/
def Call.Survives (mpf : Mpf) (mask : Permissions) (call : Call) (place : Nat)
    (databases : Databases) : Prop :=
  call.Permitted mpf mask →
    match call.command with
    | .key command => ∀ database, databases[place]? = some database →
        command.Survives mpf call.clock call.args
          (ready call.clock command call.args database.data)
    | .flushdb => ∀ database, databases[place]? = some database →
        ∀ key, Freeable database.data key
    | .flushall => ∀ database ∈ databases, ∀ key, Freeable database.data key
    | .dbsize | .select => True

theorem forM_isSome {α : Type} {check : α → Option Unit} {elements : List α} :
    (elements.forM check).isSome ↔ ∀ element ∈ elements, (check element).isSome := by
  induction elements with
  | nil => simp
  | cons element rest inductionHypothesis =>
      rw [List.forall_mem_cons, ← inductionHypothesis]
      cases checked : check element <;> simp [checked]

theorem clearDatabase_isSome {data : Data} :
    (clearDatabase data).isSome ↔ ∀ key, Freeable data key := by
  have cleared : (clearDatabase data).isSome ↔
      (data.entries.forM fun entry => freeValue entry.2.value).isSome := by
    rw [clearDatabase]
    cases data.entries.forM fun entry => freeValue entry.2.value <;> simp
  rw [cleared, forM_isSome]
  constructor
  · intro freeable key list expiry held
    have freed := freeable _ (Table.get_eq_some_iff.mp held)
    cases dangling : list.backFreed with
    | false => rfl
    | true => simp [freeValue, ListValue.llFree, dangling] at freed
  · rintro freeable ⟨key, value, expiry⟩ member
    have held : data.get key = some ⟨value, expiry⟩ := Table.get_eq_some_iff.mpr member
    cases value with
    | scalar value => rfl
    | hashtable table => rfl
    | list list => simp [freeValue, ListValue.llFree, freeable ⟨key, []⟩ list expiry held]

theorem flushall_isSome {databases : Databases} : (databases.mapM flush).isSome ↔
    ∀ database ∈ databases, ∀ key, Freeable database.data key := by
  induction databases with
  | nil => simp
  | cons database rest inductionHypothesis =>
      have flushed : (flush database).isSome ↔ ∀ key, Freeable database.data key := by
        rw [← clearDatabase_isSome, flush]
        cases clearDatabase database.data <;> simp
      rw [List.forall_mem_cons, ← flushed, ← inductionHypothesis, List.mapM_cons]
      cases flush database with
      | none => simp
      | some first => cases rest.mapM flush <;> simp

/-- There is always a last database for the search to start at. -/
theorem select_isSome {entry : Entry} {place : Nat} {databases : Databases}
    (filled : databases ≠ []) : (runSelect entry place databases).isSome := by
  have searched (name : Bytes) : ∃ found, getDatabase databases name = some found := by
    rw [getDatabase, List.getLast?_eq_some_getLast filled]
    exact ⟨_, rfl⟩
  rw [runSelect]
  split
  · rfl
  · split
    · next name args =>
        obtain ⟨found, search⟩ := searched name.bytes
        rw [search]
        cases found <;> rfl
    · rfl

theorem Call.execute_isSome {call : Call} {place : Nat} {databases : Databases}
    (lacks : mask &&& Permission.read = 0) (present : place < databases.length) :
    (call.execute mpf mask place databases).isSome ↔ call.Survives mpf mask place databases := by
  obtain ⟨database, held⟩ : ∃ database, databases[place]? = some database :=
    ⟨databases[place], List.getElem?_eq_getElem present⟩
  by_cases permitted : call.Permitted mpf mask
  · rw [Call.execute_eq permitted, Call.Survives, forall_prop_of_true permitted]
    obtain ⟨client, protover, command, args, clock⟩ := call
    cases command with
    | key command =>
        have defined : (command.run mpf clock ⟨some protover, args, mask⟩
            (ready clock command args database.data)).isSome ↔
              command.Survives mpf clock args (ready clock command args database.data) :=
          run_isSome_iff rfl permitted lacks
        simp only [held, Option.bind_some, Option.isSome_map, Option.some.injEq,
          forall_eq', Call.entry]
        exact defined
    | dbsize =>
        have unread : Permission.read &&& Permission.read = 0 := permissions_unread permitted lacks
        exact absurd unread (by decide)
    | flushall =>
        dsimp only
        rw [← flushall_isSome, runFlushall]
        cases databases.mapM flush <;> simp
    | flushdb =>
        simp only [held, onDatabase_eq, Option.bind_some, Option.isSome_map, Option.some.injEq,
          forall_eq', runFlushdb, ← clearDatabase_isSome]
        cases clearDatabase database.data <;> simp
    | select =>
        have filled : databases ≠ [] := by
          rintro rfl
          cases held
        exact iff_of_true (select_isSome filled) trivial
  · rw [Call.execute_denied permitted, Call.Survives]
    exact iff_of_true rfl fun granted => absurd granted permitted

theorem select_alike {entry : Entry} {place : Nat} {left right : Databases}
    {first second : Outcome} (same : left.Forall₂ SameShapes right)
    (ran : runSelect entry place left = some first)
    (also : runSelect entry place right = some second) : SameOutcome first second := by
  rw [runSelect] at ran also
  cases client : entry.client with
  | none =>
      rw [client] at ran also
      cases ran
      cases also
      exact ⟨same, rfl, rfl⟩
  | some protover =>
      rw [client] at ran also
      dsimp only at ran also
      rcases args : entry.args with _ | ⟨name, _ | ⟨next, rest⟩⟩
      · rw [args] at ran also
        cases ran
        cases also
        exact ⟨same, rfl, rfl⟩
      · rw [args] at ran also
        dsimp only at ran also
        rw [Option.bind_eq_bind, Option.bind_eq_some_iff] at ran also
        obtain ⟨found, search, ran⟩ := ran
        obtain ⟨other, again, also⟩ := also
        rw [← getDatabase_alike same, search] at again
        cases again
        cases found with
        | some place =>
            cases ran
            cases also
            exact ⟨same, rfl, rfl⟩
        | none =>
            cases ran
            cases also
            have created : SameShapes (allocateDatabase name.bytes) (allocateDatabase name.bytes) :=
              ⟨rfl, .refl _⟩
            exact ⟨List.rel_append same (.cons created .nil), rfl, congrArg some same.length_eq⟩
      · rw [args] at ran also
        cases ran
        cases also
        exact ⟨same, rfl, rfl⟩

/-- A command that both survive tells nothing and leaves them alike. -/
theorem Call.execute_alike {call : Call} {place : Nat} {left right : Databases}
    {first second : Outcome} (lacks : mask &&& Permission.read = 0)
    (same : left.Forall₂ SameShapes right)
    (ran : call.execute mpf mask place left = some first)
    (also : call.execute mpf mask place right = some second) : SameOutcome first second := by
  by_cases permitted : call.Permitted mpf mask
  · rw [Call.execute_eq permitted] at ran also
    obtain ⟨client, protover, command, args, clock⟩ := call
    cases command with
    | key command =>
        dsimp only at ran also
        rw [Option.bind_eq_some_iff] at ran also
        obtain ⟨former, held, ran⟩ := ran
        obtain ⟨latter, found, also⟩ := also
        have alike := found_alike same place
        rw [held, found] at alike
        cases alike with
        | some alike =>
            obtain ⟨answer, here, rfl⟩ := Option.map_eq_some_iff.mp ran
            obtain ⟨other, there, rfl⟩ := Option.map_eq_some_iff.mp also
            have answers := run_alike (alike.keys.ready clock command args) here there permitted lacks
            exact ⟨setDataAt_alike same answers.keys, answers.reply, rfl⟩
    | dbsize =>
        have unread : Permission.read &&& Permission.read = 0 := permissions_unread permitted lacks
        exact absurd unread (by decide)
    | flushall =>
        dsimp only [runFlushall] at ran also
        rw [Option.bind_eq_bind, Option.bind_eq_some_iff] at ran also
        obtain ⟨former, ran, result⟩ := ran
        cases result
        obtain ⟨latter, also, result⟩ := also
        cases result
        refine ⟨?_, rfl, rfl⟩
        rw [flushall_eq ran, flushall_eq also]
        exact cleared_alike same
    | flushdb =>
        dsimp only at ran also
        rw [onDatabase_eq, Option.bind_eq_some_iff] at ran also
        obtain ⟨former, -, ran⟩ := ran
        obtain ⟨latter, -, also⟩ := also
        obtain ⟨answer, here, rfl⟩ := Option.map_eq_some_iff.mp ran
        obtain ⟨other, there, rfl⟩ := Option.map_eq_some_iff.mp also
        rw [runFlushdb, Option.bind_eq_bind, Option.bind_eq_some_iff] at here there
        obtain ⟨cleared, here, result⟩ := here
        cases result
        obtain ⟨emptied, there, result⟩ := there
        cases result
        rw [clearDatabase_eq here, clearDatabase_eq there]
        exact ⟨setDataAt_alike same SameKeys.clear, rfl, rfl⟩
    | select => exact select_alike same ran also
  · rw [Call.execute_denied permitted] at ran also
    cases ran
    cases also
    exact ⟨same, rfl, rfl⟩

/-! ## Sequences of commands -/

/-- The command frees no such list of the server it is sent to. -/
def Store.Survives (mpf : Mpf) (mask : Permissions) (store : Store) (call : Call) : Prop :=
  call.Survives mpf mask (store.selected call.client) store.databases

theorem Store.serve_alike {left right : Store} {call : Call} {first second : Store × Reply}
    (lacks : mask &&& Permission.read = 0) (same : SameStore left right)
    (served : left.serve mpf mask call = some first)
    (also : right.serve mpf mask call = some second) :
    SameStore first.1 second.1 ∧ first.2 = second.2 := by
  obtain ⟨outcome, ran, databases, selected, reply⟩ := Store.serve_eq_some served
  obtain ⟨other, again, others, selects, answer⟩ := Store.serve_eq_some also
  rw [← same.selected] at again selects
  have alike := Call.execute_alike lacks same.databases ran again
  refine ⟨⟨?_, ?_⟩, ?_⟩
  · rw [databases, others]
    exact alike.databases
  · rw [selected, selects, Outcome.selects, Outcome.selects, alike.selected]
  · rw [reply, answer, alike.reply]

/-- Whatever the values are, a client without P_READ is told the same by both and leaves them
alike, exactly when both servers survive each of its commands. -/
theorem told_nothing_iff {left right : Store} (lacks : mask &&& Permission.read = 0)
    (same : SameStore left right) (calls : List Call) :
    Indistinguishable (Store.serve mpf mask) SameStore left right calls ↔
      Throughout (Store.serve mpf mask) (Store.Survives mpf mask) left right calls := by
  have survives (store : Store) (call : Call) :
      (store.serve mpf mask call).isSome ↔ store.Survives mpf mask call := by
    rw [Store.serve_isSome, Call.execute_isSome lacks (store.present call.client), Store.Survives]
  exact indistinguishable_iff_throughout survives
    (fun _ _ _ _ _ => Store.serve_alike lacks) same

/-- A server of one database with one key `k`. -/
def oneValue (value : Value) : Store :=
  ⟨[⟨text "main", (Table.create 16 capacity_positive).insert (text "k") ⟨value, none⟩⟩],
    fun _ => 0, fun _ => Nat.one_pos⟩

theorem get_oneValue (value : Value) (name : Bytes) :
    ((Table.create 16 capacity_positive).insert (text "k") (⟨value, none⟩ : KeyValue)).get name =
      if text "k" = name then some ⟨value, none⟩ else none := by
  rw [get_insert_absent (Table.get_create ..), Table.get_create]

theorem oneValue_same {value other : Value} (alike : SameShape value other) :
    SameStore (oneValue value) (oneValue other) := by
  refine ⟨.cons ⟨rfl, fun name => ?_⟩ .nil, rfl⟩
  simp only [get_oneValue]
  split
  · exact .some ⟨alike, rfl⟩
  · exact .none

/-- A command of the first client. -/
def firstCall (command : KeyCommand) (args : List String) : Call :=
  ⟨0, .resp3, .key command, args.map fun arg => ⟨text arg, [0]⟩, none⟩

/-- SET k x and EXISTS k where k holds a number. -/
theorem told_nothing_of_numbers :
    Indistinguishable (Store.serve Mpf.unused Permission.write) SameStore
      (oneValue (.scalar (.int 1))) (oneValue (.scalar (.int 2)))
      [firstCall .set ["k", "x"], firstCall .exist ["k"]] := by
  have lacks : Permission.write &&& Permission.read = 0 := by decide
  have same : SameStore (oneValue (.scalar (.int 1))) (oneValue (.scalar (.int 2))) :=
    oneValue_same (.scalar rfl)
  refine (told_nothing_iff lacks same _).mpr ?_
  have survives (number : Int) : (oneValue (.scalar (.int number))).Survives Mpf.unused
      Permission.write (firstCall .set ["k", "x"]) := by
    intro _ database found
    cases found
    refine ⟨_, _, _, rfl, fun _ => ⟨by decide +kernel, fun list expiry held => ?_⟩⟩
    simp [firstCall, ready_unread, get_oneValue] at held
  have short (data : Data) : KeyCommand.Survives Mpf.unused none .exist [⟨text "k", [0]⟩] data := by
    have present : presentKeys [⟨text "k", [0]⟩] data ≤ 1 := List.count_le_length
    show 9 * _ + 12 * (1 - _) < 8192
    omega
  refine ⟨survives 1, survives 2, fun _ _ _ _ => ⟨?_, ?_, fun _ _ _ _ => trivial⟩⟩
  · exact fun _ _ _ => short _
  · exact fun _ _ _ => short _

/-- What RPUSH k a b and RPOP k leave. -/
def popped : ListValue := ⟨[.str (text "a")], false, true⟩

/-- What RPUSH k c leaves. -/
def pushed : ListValue := ⟨[.str (text "c")], false, false⟩

example : ((ListValue.llCreate.llInsertBack (.str (text "a"))).llInsertBack
    (.str (text "b"))).llRemoveBack = some popped := rfl

/-- DEL k frees the one list to its end and follows a freed link in the other. -/
theorem told_apart_by_del : ¬∀ (mpf : Mpf) (mask : Permissions) (left right : Store)
    (calls : List Call), mask &&& Permission.read = 0 → SameStore left right →
      Indistinguishable (Store.serve mpf mask) SameStore left right calls := by
  intro always
  have told := always Mpf.unused Permission.write (oneValue (.list popped))
    (oneValue (.list pushed)) [firstCall .del ["k"]] (by decide) (oneValue_same (.list rfl))
  obtain ⟨next, other, reply, served, -⟩ := indistinguishable_cons.mp told
  have survives := Option.isSome_of_eq_some served
  rw [Store.serve_isSome, Call.execute_isSome (by decide) Nat.one_pos] at survives
  have freeable := survives rfl _ rfl ⟨text "k", [0]⟩ List.mem_cons_self popped none
  simp [firstCall, ready_unread, get_oneValue, popped] at freeable

end TellyDB.Commands.Data
