import TellyDB.Commands.Data.Runs

/-!
Owns what a command on the databases does once its client is gone: which handlers then leave the
keys as they would for a client and return nothing, and which use the client all the same.
-/

namespace TellyDB.Commands.Data

open Resp Server Database.Keyspace
open TellyDB.Database (Scalar Double)

/-- Without a client a handler leaves the keys as it does for one, and returns nothing. -/
def Departs (connected departed : Option (Data × Reply)) : Prop :=
  ∀ after reply, connected = some (after, reply) → departed = some (after, .empty)

/-- Without a client the handler uses it, or returns a reply for it. -/
def Uses (departed : Option (Data × Reply)) : Prop :=
  ∀ after reply, departed = some (after, reply) → reply ≠ .empty

theorem uses_error {departed : Option (Data × Reply)} {data : Data} {message : String}
    (returned : departed = some (data, .error message)) : Uses departed := by
  intro after reply ran same
  rw [returned] at ran
  rw [← (Prod.mk.inj (Option.some.inj ran)).2] at same
  cases same

/-! ## Handlers that pass -/

theorem departs_none (departed : Option (Data × Reply)) : Departs none departed := by
  intro after reply ran
  cases ran

theorem departs_some (data : Data) (reply : Reply) :
    Departs (some (data, reply)) (some (data, .empty)) := by
  intro after returned ran
  rw [(Prod.mk.inj (Option.some.inj ran)).1]

/-- What comes before the reply does not depend on the client. -/
theorem departs_bind {α : Type} {first : Option α}
    {connected departed : α → Option (Data × Reply)}
    (departs : ∀ value, Departs (connected value) (departed value)) :
    Departs (first >>= connected) (first >>= departed) := by
  intro after reply ran
  obtain ⟨value, found, ran⟩ := Option.bind_eq_some_iff.mp ran
  rw [found]
  exact departs value after reply ran

theorem int_of_type {value : Value} (type : value.type = .int) :
    ∃ number, value = .scalar (.int number) := by
  cases value with
  | scalar scalar =>
      cases scalar with
      | int number => exact ⟨number, rfl⟩
      | _ => cases type
  | _ => cases type

theorem double_of_type {value : Value} (type : value.type = .double) :
    ∃ number, value = .scalar (.double number) := by
  cases value with
  | scalar scalar =>
      cases scalar with
      | double number => exact ⟨number, rfl⟩
      | _ => cases type
  | _ => cases type

section Handlers

variable {mpf : Mpf} {protover : ProtocolVersion} {args : List Argument}
  {permissions : Permissions} {data : Data}

theorem reading_departs {run : Run} {body : List Argument → Data → Option Reply}
    (reads : run = reading body) :
    Departs (run ⟨some protover, args, permissions⟩ data)
      (run ⟨none, args, permissions⟩ data) := by
  intro after reply ran
  rw [reads] at ran ⊢
  obtain ⟨written, -, same⟩ := Option.map_eq_some_iff.mp ran
  rw [reading, ← (Prod.mk.inj same).1]

theorem replyStored_departs (value : Scalar) :
    Departs (replyStored ⟨some protover, args, permissions⟩ data value)
      (replyStored ⟨none, args, permissions⟩ data value) := by
  intro after reply ran
  obtain ⟨element, -, same⟩ := Option.map_eq_some_iff.mp ran
  rw [replyStored, ← (Prod.mk.inj same).1]

theorem append_departs :
    Departs (runAppend ⟨some protover, args, permissions⟩ data)
      (runAppend ⟨none, args, permissions⟩ data) := by
  unfold runAppend
  dsimp only
  split
  · split
    · split
      · split
        · exact departs_some _ _
        · exact departs_none _
      · exact departs_some _ _
    · exact departs_bind fun _ => departs_some _ _
  · exact departs_some _ _

theorem del_departs :
    Departs (runDel ⟨some protover, args, permissions⟩ data)
      (runDel ⟨none, args, permissions⟩ data) := by
  unfold runDel
  dsimp only
  split
  · exact departs_some _ _
  · exact departs_bind fun _ => departs_some _ _

theorem rename_departs :
    Departs (runRename ⟨some protover, args, permissions⟩ data)
      (runRename ⟨none, args, permissions⟩ data) := by
  unfold runRename
  dsimp only
  split
  · split
    · exact departs_some _ _
    · exact departs_some _ _
  · exact departs_some _ _

theorem setWith_departs {options : Options} {response : Response} {key : Argument} :
    Departs (runSetWith mpf options response key ⟨some protover, args, permissions⟩ data)
      (runSetWith mpf options response key ⟨none, args, permissions⟩ data) := by
  unfold runSetWith
  dsimp only
  split
  · exact departs_some _ _
  · split
    · exact departs_some _ _
    · split
      · split
        · exact departs_some _ _
        · refine departs_bind fun value => departs_bind fun data => ?_
          split
          · exact replyStored_departs value
          · exact departs_some _ _
      · exact departs_bind fun _ => departs_bind fun _ => departs_some _ _

theorem set_departs (clock : Option Nat) :
    Departs (runSet mpf clock ⟨some protover, args, permissions⟩ data)
      (runSet mpf clock ⟨none, args, permissions⟩ data) := by
  unfold runSet
  dsimp only
  split
  · refine departs_bind fun parsed => ?_
    split
    · exact setWith_departs
    · exact departs_some _ _
  · exact departs_some _ _

theorem hset_departs :
    Departs (runHset mpf ⟨some protover, args, permissions⟩ data)
      (runHset mpf ⟨none, args, permissions⟩ data) := by
  unfold runHset
  dsimp only
  split
  · split
    · exact departs_some _ _
    · split
      · split
        · exact departs_some _ _
        · exact departs_some _ _
      · exact departs_bind fun _ => departs_some _ _
  · exact departs_some _ _

theorem hdel_departs :
    Departs (runHdel ⟨some protover, args, permissions⟩ data)
      (runHdel ⟨none, args, permissions⟩ data) := by
  unfold runHdel
  dsimp only
  split
  · split
    · split
      · split
        · exact departs_some _ _
        · split
          · exact departs_bind fun _ => departs_some _ _
          · exact departs_some _ _
      · exact departs_some _ _
    · exact departs_some _ _
  · exact departs_some _ _

theorem push_departs (name : String) (insert : ListValue → Scalar → ListValue) :
    Departs (runPush mpf name insert ⟨some protover, args, permissions⟩ data)
      (runPush mpf name insert ⟨none, args, permissions⟩ data) := by
  unfold runPush
  dsimp only
  split
  · split
    · split
      · exact departs_some _ _
      · exact departs_some _ _
    · exact departs_bind fun _ => departs_some _ _
  · exact departs_some _ _

theorem pop_departs (name : String) (pointer : ListValue → Option Scalar)
    (remove : ListValue → Option ListValue) :
    Departs (runPop name pointer remove ⟨some protover, args, permissions⟩ data)
      (runPop name pointer remove ⟨none, args, permissions⟩ data) := by
  unfold runPop
  dsimp only
  split
  · split
    · exact departs_some _ _
    · split
      · intro after reply ran
        obtain ⟨popped, -, ran⟩ := Option.bind_eq_some_iff.mp ran
        rw [popReply, Option.bind_eq_bind, Option.bind_some]
        -- the node is removed whether somebody reads it or not
        split at ran
        · next single =>
            rw [if_pos single]
            exact departs_bind (fun _ => departs_some _ popped) after reply ran
        · next more =>
            rw [if_neg more]
            exact departs_bind (fun _ => departs_some _ popped) after reply ran
      · exact departs_some _ _
  · exact departs_some _ _

/-! ## Handlers that use the client -/

/-- INCR and DECR pass without arguments alone. -/
theorem count_departs (changeInt : Int → Int) (changeDouble : Double → Double) :
    Departs (runCount changeInt changeDouble ⟨some protover, [], permissions⟩ data)
      (runCount changeInt changeDouble ⟨none, [], permissions⟩ data) :=
  departs_some _ _

theorem count_uses (changeInt : Int → Int) (changeDouble : Double → Double) (some_ : args ≠ []) :
    Uses (runCount changeInt changeDouble ⟨none, args, permissions⟩ data) := by
  have length : args.length ≠ 0 := mt List.eq_nil_of_length_eq_zero some_
  intro after reply ran
  rw [runCount, if_neg length] at ran
  cases ran

/-- INCRBY and DECRBY are given a number for a key that holds none. -/
def RefusesNumber (args : List Argument) (data : Data) : Prop :=
  match args with
  | [key, input] => (tryParseInteger input || tryParseDouble input) = true ∧
      ∃ kv, getData data key.bytes = some kv ∧ kv.value.type ≠ .int ∧ kv.value.type ≠ .double
  | _ => False

theorem refusesNumber_iff {key input : Argument} {kv : KeyValue}
    (number : ¬(!tryParseInteger input && !tryParseDouble input) = true)
    (found : getData data key.bytes = some kv) :
    RefusesNumber [key, input] data ↔ kv.value.type ≠ .int ∧ kv.value.type ≠ .double := by
  have parsed : (tryParseInteger input || tryParseDouble input) = true := by
    rwa [← Bool.not_or, Bool.not_eq_true', Bool.not_eq_false] at number
  constructor
  · intro refuses
    obtain ⟨-, other, foundOther, type⟩ := refuses
    rw [found] at foundOther
    exact Option.some.inj foundOther ▸ type
  · exact fun type => ⟨parsed, kv, found, type⟩

theorem incrby_departs (accepts : ¬RefusesNumber args data) :
    Departs (runIncrby mpf ⟨some protover, args, permissions⟩ data)
      (runIncrby mpf ⟨none, args, permissions⟩ data) := by
  unfold runIncrby
  dsimp only
  split
  · next key input =>
      split
      · exact departs_some _ _
      · next number =>
          split
          · split
            · exact departs_bind fun _ => replyStored_departs _
            · exact departs_some _ _
          · next kv found =>
              rw [refusesNumber_iff number found] at accepts
              split
              · exact replyStored_departs _
              · exact replyStored_departs _
              · next notInt notDouble =>
                  refine absurd ⟨fun int => ?_, fun double => ?_⟩ accepts
                  · obtain ⟨number, same⟩ := int_of_type int
                    exact notInt number same
                  · obtain ⟨number, same⟩ := double_of_type double
                    exact notDouble number same
  · exact departs_some _ _

theorem decrby_departs (accepts : ¬RefusesNumber args data) :
    Departs (runDecrby mpf ⟨some protover, args, permissions⟩ data)
      (runDecrby mpf ⟨none, args, permissions⟩ data) := by
  unfold runDecrby
  dsimp only
  split
  · next key input =>
      split
      · exact departs_some _ _
      · next number =>
          split
          · exact departs_bind fun _ => replyStored_departs _
          · next kv found =>
              rw [refusesNumber_iff number found] at accepts
              split
              · exact replyStored_departs _
              · exact replyStored_departs _
              · next notInt notDouble =>
                  refine absurd ⟨fun int => ?_, fun double => ?_⟩ accepts
                  · obtain ⟨number, same⟩ := int_of_type int
                    exact notInt number same
                  · obtain ⟨number, same⟩ := double_of_type double
                    exact notDouble number same
  · exact departs_some _ _

/-- What a refusal consists of. -/
theorem RefusesNumber.eq (refuses : RefusesNumber args data) :
    ∃ key input kv, args = [key, input] ∧
      (!tryParseInteger input && !tryParseDouble input) = false ∧
      getData data key.bytes = some kv ∧ kv.value.type ≠ .int ∧ kv.value.type ≠ .double := by
  unfold RefusesNumber at refuses
  split at refuses
  · next key input =>
      obtain ⟨parsed, kv, found, type⟩ := refuses
      refine ⟨key, input, kv, rfl, ?_, found, type⟩
      rw [← Bool.not_or, parsed, Bool.not_true]
  · cases refuses

/-- The error for the type of the value is returned to any client. -/
theorem incrby_refuses (refuses : RefusesNumber args data) (client : Option ProtocolVersion) :
    runIncrby mpf ⟨client, args, permissions⟩ data =
      some (data, .invalidTypeError "INCRBY") := by
  obtain ⟨key, input, kv, rfl, parsed, found, notInt, notDouble⟩ := refuses.eq
  unfold runIncrby
  dsimp only
  rw [if_neg (ne_true_of_eq_false parsed), found]
  dsimp only
  split
  · next number same => exact absurd (congrArg Value.type same) notInt
  · next number same => exact absurd (congrArg Value.type same) notDouble
  · rfl

theorem decrby_refuses (refuses : RefusesNumber args data) (client : Option ProtocolVersion) :
    runDecrby mpf ⟨client, args, permissions⟩ data =
      some (data, .invalidTypeError "DECRBY") := by
  obtain ⟨key, input, kv, rfl, parsed, found, notInt, notDouble⟩ := refuses.eq
  unfold runDecrby
  dsimp only
  rw [if_neg (ne_true_of_eq_false parsed), found]
  dsimp only
  split
  · next number same => exact absurd (congrArg Value.type same) notInt
  · next number same => exact absurd (congrArg Value.type same) notDouble
  · rfl

end Handlers

/-! ## All handlers -/

/-- INCR and DECR use the client for their first key, INCRBY and DECRBY answer it where the value
is no number. -/
def KeyCommand.UsesClient (command : KeyCommand) (args : List Argument) (data : Data) : Prop :=
  match command with
  | .incr | .decr => args ≠ []
  | .incrby | .decrby => RefusesNumber args data
  | _ => False

section Commands

variable {mpf : Mpf} {clock : Option Nat} {protover : ProtocolVersion} {args : List Argument}
  {permissions : Permissions} {data : Data}

theorem KeyCommand.departs {command : KeyCommand} (passes : ¬command.UsesClient args data) :
    Departs (command.run mpf clock ⟨some protover, args, permissions⟩ data)
      (command.run mpf clock ⟨none, args, permissions⟩ data) := by
  cases command with
  | incr =>
      have empty : args = [] := not_not.mp passes
      rw [empty]
      exact count_departs (· + 1) fun number => mpf.addUi number 1
  | decr =>
      have empty : args = [] := not_not.mp passes
      rw [empty]
      exact count_departs (· - 1) fun number => mpf.subUi number 1
  | incrby => exact incrby_departs passes
  | decrby => exact decrby_departs passes
  | append => exact append_departs
  | del => exact del_departs
  | rename => exact rename_departs
  | set => exact set_departs clock
  | hset => exact hset_departs
  | hdel => exact hdel_departs
  | lpush => exact push_departs _ _
  | rpush => exact push_departs _ _
  | lpop => exact pop_departs _ _ _
  | rpop => exact pop_departs _ _ _
  | lindex =>
      rw [KeyCommand.run, runLindex, runIndexed]
      exact reading_departs rfl
  | ltype =>
      rw [KeyCommand.run, runLtype, runIndexed]
      exact reading_departs rfl
  | _ =>
      rw [KeyCommand.run]
      exact reading_departs rfl

theorem KeyCommand.uses {command : KeyCommand} (uses : command.UsesClient args data) :
    Uses (command.run mpf clock ⟨none, args, permissions⟩ data) := by
  cases command with
  | incr => exact count_uses (· + 1) (fun number => mpf.addUi number 1) uses
  | decr => exact count_uses (· - 1) (fun number => mpf.subUi number 1) uses
  | incrby => exact uses_error (incrby_refuses uses none)
  | decrby => exact uses_error (decrby_refuses uses none)
  | _ => cases uses

end Commands

/-! ## Transactions -/

/-- What lies under a key of the database at a place. -/
def keyValue (databases : Databases) (index : Nat) (key : Bytes) : Option KeyValue :=
  (databases[index]?).bind fun database => getData database.data key

/-- Every key of every database has the same value in both. -/
def SameValues (left right : Databases) : Prop :=
  ∀ index key, keyValue left index key = keyValue right index key

/-- The handler uses the client, or returns a reply for it. -/
def DataCommand.UsesClient (command : DataCommand) (args : List Argument) (index : Nat)
    (databases : Databases) : Prop :=
  match command with
  | .key command =>
      ∃ database, databases[index]? = some database ∧ command.UsesClient args database.data
  | _ => False

/-- `execute_transaction` writes an error to the client, or its handler uses it. -/
def DataCommand.AnswersClient (mpf : Mpf) (clock : Option Nat) (command : DataCommand)
    (args : List Argument) (permissions : Permissions) (index : Nat) (databases : Databases) :
    Prop :=
  permissions &&& (command.command mpf).permissions ≠ (command.command mpf).permissions ∨
    command.UsesClient args index (expireKeys clock (command.command mpf) args index databases)

section Transactions

variable {mpf : Mpf} {clock : Option Nat} {protover : ProtocolVersion} {args : List Argument}
  {permissions : Permissions} {index : Nat} {databases : Databases}

theorem sameValues_refl (databases : Databases) : SameValues databases databases :=
  fun _ _ => rfl

/-- A new database has no keys. -/
theorem sameValues_append (name : Bytes) :
    SameValues (databases ++ [allocateDatabase name]) databases := by
  intro index key
  rw [keyValue, keyValue]
  rcases Nat.lt_trichotomy index databases.length with inside | rfl | behind
  · rw [List.getElem?_append_left inside]
  · rw [List.getElem?_concat_length, List.getElem?_eq_none (Nat.le_refl _)]
    exact TellyDB.Database.Table.get_create databaseInitialSize (by decide) key
  · rw [List.getElem?_eq_none (Nat.le_of_lt behind), List.getElem?_eq_none]
    rw [List.length_append]
    exact behind

theorem onDatabase_departs (run : Run)
    (departs : ∀ database, databases[index]? = some database →
      Departs (run ⟨some protover, args, permissions⟩ database.data)
        (run ⟨none, args, permissions⟩ database.data))
    {outcome : Outcome}
    (ran : onDatabase run ⟨some protover, args, permissions⟩ index databases = some outcome) :
    onDatabase run ⟨none, args, permissions⟩ index databases =
      some ⟨outcome.databases, .empty, none⟩ := by
  rw [onDatabase_eq] at ran ⊢
  obtain ⟨database, found, ran⟩ := Option.bind_eq_some_iff.mp ran
  obtain ⟨after, ran, same⟩ := Option.map_eq_some_iff.mp ran
  rw [found, Option.bind_some, departs database found after.1 after.2 ran, ← same]
  rfl

theorem flushdb_departs (data : Data) :
    Departs (runFlushdb ⟨some protover, args, permissions⟩ data)
      (runFlushdb ⟨none, args, permissions⟩ data) :=
  departs_bind fun _ => departs_some _ _

theorem select_departs (index : Nat) {outcome : Outcome}
    (ran : runSelect ⟨some protover, args, permissions⟩ index databases = some outcome) :
    SameValues outcome.databases databases := by
  unfold runSelect at ran
  dsimp only at ran
  split at ran
  · obtain ⟨found, -, ran⟩ := Option.bind_eq_some_iff.mp ran
    cases found with
    | none =>
        cases ran
        exact sameValues_append _
    | some found =>
        cases ran
        exact sameValues_refl _
  · cases ran
    exact sameValues_refl _

theorem DataCommand.departs {command : DataCommand}
    (passes : ¬command.UsesClient args index databases) {outcome : Outcome}
    (ran : (command.command mpf).run clock ⟨some protover, args, permissions⟩ index databases =
      some outcome) :
    ∃ after, (command.command mpf).run clock ⟨none, args, permissions⟩ index databases =
      some ⟨after, .empty, none⟩ ∧ SameValues outcome.databases after := by
  cases command with
  | key command =>
      have departs := onDatabase_departs (command.run mpf clock) (fun database found =>
        KeyCommand.departs fun uses => passes ⟨database, found, uses⟩) ran
      exact ⟨outcome.databases, departs, sameValues_refl _⟩
  | dbsize =>
      change runDbsize ⟨some protover, args, permissions⟩ index databases = some outcome at ran
      refine ⟨databases, rfl, ?_⟩
      rw [dbsize_keeps index ran]
      exact sameValues_refl _
  | flushall =>
      obtain ⟨cleared, found, ran⟩ := Option.bind_eq_some_iff.mp ran
      cases ran
      refine ⟨cleared, ?_, sameValues_refl _⟩
      show (databases.mapM flush).bind _ = _
      rw [found]
      rfl
  | flushdb =>
      have departs := onDatabase_departs runFlushdb
        (fun database _ => flushdb_departs database.data) ran
      exact ⟨outcome.databases, departs, sameValues_refl _⟩
  | select => exact ⟨databases, rfl, select_departs index ran⟩

theorem DataCommand.uses {command : DataCommand} (uses : command.UsesClient args index databases)
    {outcome : Outcome}
    (ran : (command.command mpf).run clock ⟨none, args, permissions⟩ index databases =
      some outcome) : outcome.reply ≠ .empty := by
  cases command with
  | key command =>
      obtain ⟨database, found, uses⟩ := uses
      change onDatabase _ _ index databases = some outcome at ran
      rw [onDatabase_eq, found, Option.bind_some] at ran
      obtain ⟨after, returned, same⟩ := Option.map_eq_some_iff.mp ran
      rw [← same]
      exact command.uses uses after.1 after.2 returned
  | _ => cases uses

/-- A transaction that has nothing to say to its client passes without one. -/
theorem executeTransaction_departs {command : DataCommand}
    (passes : ¬command.AnswersClient mpf clock args permissions index databases)
    {outcome : Outcome}
    (ran : executeTransaction clock (command.command mpf) ⟨some protover, args, permissions⟩ index
      databases = some outcome) :
    ∃ after, executeTransaction clock (command.command mpf) ⟨none, args, permissions⟩ index
      databases = some ⟨after, .empty, none⟩ ∧ SameValues outcome.databases after := by
  obtain ⟨permitted, passes⟩ := not_or.mp passes
  rw [execute_permitted (not_not.mp permitted)] at ran ⊢
  exact command.departs passes ran

theorem executeTransaction_uses {command : DataCommand}
    (answers : command.AnswersClient mpf clock args permissions index databases)
    {outcome : Outcome}
    (ran : executeTransaction clock (command.command mpf) ⟨none, args, permissions⟩ index
      databases = some outcome) : outcome.reply ≠ .empty := by
  by_cases permitted : permissions &&& (command.command mpf).permissions =
      (command.command mpf).permissions
  · rw [execute_permitted permitted] at ran
    exact command.uses (answers.resolve_left (not_not.mpr permitted)) ran
  · rw [executeTransaction, if_pos permitted] at ran
    cases ran

end Transactions

end TellyDB.Commands.Data
