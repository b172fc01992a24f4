import TellyDB.Commands.Data.Steps

/-!
Owns what a command that takes keys may leave under a key: what was there before,
or one of the values it stores.
-/

namespace TellyDB.Commands.Data

open Resp Server Database.Keyspace
open TellyDB.Database (Scalar Table)

variable {mpf : Mpf} {clock : Option Nat}

/-- What one turn of INCR or DECR makes of a key. -/
def countOnce (changeInt : Int → Int) (changeDouble : TellyDB.Database.Double → TellyDB.Database.Double) :
    Option KeyValue → Option KeyValue
  | none => some ⟨.scalar (.int 0), none⟩
  | some ⟨.scalar (.int number), expiry⟩ => some ⟨.scalar (.int (changeInt number)), expiry⟩
  | some ⟨.scalar (.double number), expiry⟩ =>
      some ⟨.scalar (.double (changeDouble number)), expiry⟩
  | some kv => some kv

/-- How often a key is among the arguments. -/
def occurrences (args : List Argument) (key : Bytes) : Nat :=
  args.countP fun arg => arg.bytes == key

/-- The values a command stores, each under its key. -/
inductive Stores (mpf : Mpf) (clock : Option Nat) (entry : Entry) (data : Data) :
    KeyCommand → Bytes → Value → Prop
  | appendNew {key arg : Argument} (args : entry.args = [key, arg])
      (absent : data.get key.bytes = none) :
      Stores mpf clock entry data .append key.bytes (.scalar (.str arg.bytes))
  | append {key arg : Argument} {string : Bytes} {expiry : Option Nat}
      (args : entry.args = [key, arg])
      (held : data.get key.bytes = some ⟨.scalar (.str string), expiry⟩) :
      Stores mpf clock entry data .append key.bytes (.scalar (.str (string ++ arg.bytes)))
  | incr {key : Argument} {kv : KeyValue} (member : key ∈ entry.args)
      (counted : (countOnce (· + 1) fun number => mpf.addUi number 1)^[
        occurrences entry.args key.bytes] (data.get key.bytes) = some kv) :
      Stores mpf clock entry data .incr key.bytes kv.value
  | decr {key : Argument} {kv : KeyValue} (member : key ∈ entry.args)
      (counted : (countOnce (· - 1) fun number => mpf.subUi number 1)^[
        occurrences entry.args key.bytes] (data.get key.bytes) = some kv) :
      Stores mpf clock entry data .decr key.bytes kv.value
  | incrbyNew {key input : Argument} (args : entry.args = [key, input])
      (integer : tryParseInteger input = true) (absent : data.get key.bytes = none) :
      Stores mpf clock entry data .incrby key.bytes (.scalar (.int (mpzInitSetStr input.memory)))
  | incrbyInt {key input : Argument} {number : Int} {expiry : Option Nat}
      (args : entry.args = [key, input]) (integer : tryParseInteger input = true)
      (held : data.get key.bytes = some ⟨.scalar (.int number), expiry⟩) :
      Stores mpf clock entry data .incrby key.bytes
        (.scalar (.int (number + mpzInitSetStr input.memory)))
  | incrbyDouble {key input : Argument} {kv : KeyValue} (args : entry.args = [key, input])
      (held : data.get key.bytes = some kv) (number : TellyDB.Database.Double) :
      Stores mpf clock entry data .incrby key.bytes (.scalar (.double number))
  | decrbyNew {key input : Argument} (args : entry.args = [key, input])
      (integer : tryParseInteger input = true) (absent : data.get key.bytes = none) :
      Stores mpf clock entry data .decrby key.bytes
        (.scalar (.int (-mpzInitSetStr input.memory)))
  | decrbyInt {key input : Argument} {number : Int} {expiry : Option Nat}
      (args : entry.args = [key, input]) (integer : tryParseInteger input = true)
      (held : data.get key.bytes = some ⟨.scalar (.int number), expiry⟩) :
      Stores mpf clock entry data .decrby key.bytes
        (.scalar (.int (number - mpzInitSetStr input.memory)))
  | decrbyNewDouble {key input : Argument} (args : entry.args = [key, input])
      (integer : ¬tryParseInteger input = true) (double : tryParseDouble input = true)
      (absent : data.get key.bytes = none) :
      Stores mpf clock entry data .decrby key.bytes
        (.scalar (.double (mpf.neg (mpf.setStr input.memory))))
  | decrbyDouble {key input : Argument} {kv : KeyValue} (args : entry.args = [key, input])
      (held : data.get key.bytes = some kv) (number : TellyDB.Database.Double) :
      Stores mpf clock entry data .decrby key.bytes (.scalar (.double number))
  | rename {search name : Argument} {kv : KeyValue} (args : entry.args = [search, name])
      (held : data.get search.bytes = some kv) :
      Stores mpf clock entry data .rename name.bytes kv.value
  | set {key input : Argument} {rest : List Argument} {options : Options} {response : Response}
      {value : Scalar} (args : entry.args = key :: input :: rest)
      (parsed : parseOptions clock rest ⟨false, false, false, false, none⟩
        ⟨input, .unknown, false, false, input.sstreq "true"⟩ =
          some (.validOptions, options, response))
      (typed : storedScalar (setValue mpf options response) = some value) :
      Stores mpf clock entry data .set key.bytes (.scalar value)
  | hsetNew {key field : Argument} {rest : List Argument} (args : entry.args = key :: field :: rest)
      (even : (field :: rest).length % 2 = 0) (absent : data.get key.bytes = none) :
      Stores mpf clock entry data .hset key.bytes
        (.hashtable (setFields mpf (field :: rest) (Table.create 16 capacity_positive)))
  | hset {key field : Argument} {rest : List Argument} {table : Table Scalar}
      {expiry : Option Nat} (args : entry.args = key :: field :: rest)
      (even : (field :: rest).length % 2 = 0)
      (held : data.get key.bytes = some ⟨.hashtable table, expiry⟩) :
      Stores mpf clock entry data .hset key.bytes
        (.hashtable (setFields mpf (field :: rest) table))
  | hdel {key field : Argument} {rest : List Argument} {table : Table Scalar}
      {expiry : Option Nat} (args : entry.args = key :: field :: rest)
      (held : data.get key.bytes = some ⟨.hashtable table, expiry⟩)
      (nonempty : (deleteFields (field :: rest) table).count ≠ 0) :
      Stores mpf clock entry data .hdel key.bytes
        (.hashtable (deleteFields (field :: rest) table))
  | push {command : KeyCommand} {insert : ListValue → Scalar → ListValue} {key first : Argument}
      {rest : List Argument} {list : ListValue}
      (direction : (command, insert) = (.lpush, ListValue.llInsertFront) ∨
        (command, insert) = (.rpush, ListValue.llInsertBack))
      (args : entry.args = key :: first :: rest)
      (held : data.get key.bytes = none ∧ list = ListValue.llCreate ∨
        ∃ expiry, data.get key.bytes = some ⟨.list list, expiry⟩) :
      Stores mpf clock entry data command key.bytes (.list
        ((first :: rest).foldl (fun list input => insert list (pushedValue mpf input)) list))
  | pop {command : KeyCommand} {remove : ListValue → Option ListValue} {key : Argument}
      {list after : ListValue} {expiry : Option Nat}
      (direction : (command, remove) = (.lpop, ListValue.llRemoveFront) ∨
        (command, remove) = (.rpop, ListValue.llRemoveBack))
      (args : entry.args = [key])
      (held : data.get key.bytes = some ⟨.list list, expiry⟩) (several : list.size ≠ 1)
      (removed : remove list = some after) :
      Stores mpf clock entry data command key.bytes (.list after)

/-- Under every key lies what was there before, or a value that is stored under it. -/
def WritesOnly (stores : Bytes → Value → Prop) (before after : Data) : Prop :=
  ∀ key kv, after.get key = some kv →
    (∃ old, before.get key = some old ∧ old.value = kv.value) ∨ stores key kv.value

section Rules

variable {stores : Bytes → Value → Prop} {before after : Data}

theorem WritesOnly.refl (data : Data) : WritesOnly stores data data :=
  fun _ kv held => Or.inl ⟨kv, held, rfl⟩

theorem WritesOnly.delete (data : Data) (key : Bytes) :
    WritesOnly stores data (data.delete key).1 := by
  intro name kv held
  rw [Table.get_delete] at held
  split at held
  · cases held
  · exact Or.inl ⟨kv, held, rfl⟩

theorem WritesOnly.put {key : Bytes} {kv : KeyValue}
    (reads : ∀ name, after.get name = if key = name then some kv else before.get name)
    (stored : stores key kv.value) : WritesOnly stores before after := by
  intro name found held
  rw [reads] at held
  split at held
  · next same =>
      cases held
      exact Or.inr (same ▸ stored)
  · exact Or.inl ⟨found, held, rfl⟩

theorem get_insert_absent {data : Data} {key : Bytes} (absent : data.get key = none)
    (kv : KeyValue) (name : Bytes) :
    (data.insert key kv).get name = if key = name then some kv else data.get name := by
  rw [Table.get_insert]
  split
  · next same => rw [← same, absent, Option.none_or]
  · rfl

theorem get_changeValue {data : Data} {key : Bytes} {kv : KeyValue}
    (held : data.get key = some kv) (value : Value) (name : Bytes) :
    (changeValue data key kv value).get name =
      if key = name then some { kv with value } else data.get name :=
  Table.get_assign held _ _

/-- `set_data` stores its value whatever was there. -/
theorem get_setData {data after : Data} {key : Bytes} {value : Value} {expireAt : Option Nat}
    (set : setData data (data.get key) key value expireAt = some after) (name : Bytes) :
    after.get name = if key = name then some ⟨value, expireAt⟩ else data.get name := by
  cases held : data.get key with
  | none =>
      rw [held] at set
      cases set
      exact get_insert_absent held _ _
  | some kv =>
      rw [held, setData, Option.bind_eq_bind, Option.bind_eq_some_iff] at set
      rcases set with ⟨-, -, same⟩
      cases same
      exact Table.get_assign held _ _

theorem get_deleteData {data after : Data} {key : Bytes} {deleted : Bool}
    (ran : deleteData data key = some (after, deleted)) (name : Bytes) :
    after.get name = if key = name then none else data.get name := by
  rw [deleteData, getData] at ran
  cases held : data.get key with
  | none =>
      rw [held] at ran
      cases ran
      split
      · next same => rw [← same, held]
      · rfl
  | some kv =>
      rw [held, Option.bind_eq_bind, Option.bind_eq_some_iff] at ran
      rcases ran with ⟨-, -, same⟩
      cases same
      exact Table.get_delete _ _ _

end Rules

/-! ## The handlers -/

variable {entry : Entry} {data after : Data} {reply : Reply}

/-- A handler that only reads. -/
theorem reading_keeps {body : List Argument → Data → Option Reply}
    (ran : reading body entry data = some (after, reply)) : after = data := by
  rw [reading] at ran
  cases client : entry.client with
  | none =>
      rw [client] at ran
      cases ran
      rfl
  | some protover =>
      rw [client] at ran
      dsimp only at ran
      rw [Option.map_eq_some_iff] at ran
      rcases ran with ⟨reply, -, same⟩
      cases same
      rfl

/-- A command without the flag for it leaves the databases alone. -/
theorem run_eq_reading {command : KeyCommand}
    (reads : command.affectDatabase = false) : ∃ body, command.run mpf clock = reading body := by
  cases command with
  | exist => exact ⟨_, by rw [KeyCommand.run, runExists]⟩
  | get => exact ⟨_, by rw [KeyCommand.run, runGet]⟩
  | type => exact ⟨_, by rw [KeyCommand.run, runType]⟩
  | hget => exact ⟨_, by rw [KeyCommand.run, runHget]⟩
  | hgetall => exact ⟨_, by rw [KeyCommand.run, runHgetall]⟩
  | hkeys => exact ⟨_, by rw [KeyCommand.run, runHkeys]⟩
  | hlen => exact ⟨_, by rw [KeyCommand.run, runHlen]⟩
  | htype => exact ⟨_, by rw [KeyCommand.run, runHtype]⟩
  | hvals => exact ⟨_, by rw [KeyCommand.run, runHvals]⟩
  | lindex => exact ⟨_, by rw [KeyCommand.run, runLindex, runIndexed]⟩
  | ltype => exact ⟨_, by rw [KeyCommand.run, runLtype, runIndexed]⟩
  | llen => exact ⟨_, by rw [KeyCommand.run, runLlen]⟩
  | lrange => exact ⟨_, by rw [KeyCommand.run, runLrange]⟩
  | _ => cases reads

theorem append_writes (ran : runAppend entry data = some (after, reply)) :
    WritesOnly (Stores mpf clock entry data .append) data after := by
  rw [runAppend] at ran
  split at ran
  · next key arg args =>
      rw [getData] at ran
      cases held : data.get key.bytes with
      | none =>
          rw [held] at ran
          cases ran
          exact WritesOnly.put (get_insert_absent held _) (Stores.appendNew args held)
      | some kv =>
          rcases kv with ⟨value, expiry⟩
          rw [held] at ran
          dsimp only at ran
          split at ran
          · next string =>
              split at ran
              · cases ran
                exact WritesOnly.put (get_changeValue held _) (Stores.append args held)
              · cases ran
          · cases ran
            exact WritesOnly.refl data
  · cases ran
    exact WritesOnly.refl data

/-- One turn changes its key. -/
theorem get_countKey {changeInt : Int → Int}
    {changeDouble : TellyDB.Database.Double → TellyDB.Database.Double} {key : Bytes}
    {written : Element} (once : countKey changeInt changeDouble key data = some (after, written))
    (name : Bytes) :
    after.get name = if key = name then countOnce changeInt changeDouble (data.get name)
      else data.get name := by
  rw [countKey, getData] at once
  cases held : data.get key with
  | none =>
      rw [held] at once
      cases once
      rw [get_insert_absent held]
      split
      · next same =>
          rw [← same, held]
          rfl
      · rfl
  | some kv =>
      rcases kv with ⟨value, expiry⟩
      rw [held] at once
      dsimp only at once
      split at once
      · next number =>
          cases once
          rw [get_changeValue held]
          split
          · next same =>
              rw [← same, held]
              rfl
          · rfl
      · next number =>
          cases once
          rw [get_changeValue held]
          split
          · next same =>
              rw [← same, held]
              rfl
          · rfl
      · next noInt noDouble =>
          cases once
          split
          · next same =>
              rw [← same, held]
              cases value with
              | scalar value =>
                  cases value with
                  | int number => exact absurd rfl (noInt number)
                  | double number => exact absurd rfl (noDouble number)
                  | _ => rfl
              | _ => rfl
          · rfl

/-- The loop of INCR and DECR takes one turn on each key for each of its occurrences. -/
theorem get_countLoop {changeInt : Int → Int}
    {changeDouble : TellyDB.Database.Double → TellyDB.Database.Double} {args : List Argument}
    {elements : List Element}
    (ran : countLoop changeInt changeDouble args data = some (after, elements)) (name : Bytes) :
    after.get name =
      (countOnce changeInt changeDouble)^[occurrences args name] (data.get name) := by
  induction args generalizing data elements with
  | nil =>
      cases ran
      rfl
  | cons key rest inductionHypothesis =>
      rw [countLoop, Option.bind_eq_bind, Option.bind_eq_some_iff] at ran
      rcases ran with ⟨⟨middle, written⟩, once, ran⟩
      dsimp only at ran
      rw [Option.bind_eq_bind, Option.bind_eq_some_iff] at ran
      rcases ran with ⟨⟨last, others⟩, ran, same⟩
      cases same
      rw [inductionHypothesis ran, occurrences, occurrences, List.countP_cons, get_countKey once]
      by_cases same : key.bytes = name
      · rw [if_pos same, if_pos (by simpa using same), Function.iterate_succ_apply]
      · rw [if_neg same, if_neg (by simpa using same), Nat.add_zero]

/-- INCR and DECR. -/
theorem count_writes {command : KeyCommand} {changeInt : Int → Int}
    {changeDouble : TellyDB.Database.Double → TellyDB.Database.Double}
    (stores : ∀ {key : Argument} {kv : KeyValue}, key ∈ entry.args →
      (countOnce changeInt changeDouble)^[occurrences entry.args key.bytes]
        (data.get key.bytes) = some kv → Stores mpf clock entry data command key.bytes kv.value)
    (ran : runCount changeInt changeDouble entry data = some (after, reply)) :
    WritesOnly (Stores mpf clock entry data command) data after := by
  rw [runCount] at ran
  split at ran
  · cases ran
    exact WritesOnly.refl data
  cases client : entry.client with
  | none =>
      rw [client] at ran
      cases ran
  | some protover =>
      rw [client] at ran
      dsimp only at ran
      rw [Option.bind_eq_bind, Option.bind_eq_some_iff] at ran
      rcases ran with ⟨⟨counted, elements⟩, ran, same⟩
      cases same
      intro name kv held
      rw [get_countLoop ran] at held
      by_cases listed : ∃ key ∈ entry.args, key.bytes = name
      · rcases listed with ⟨key, member, same⟩
        subst same
        exact Or.inr (stores member held)
      · have never : occurrences entry.args name = 0 := by
          rw [occurrences, List.countP_eq_zero]
          intro key member here
          exact listed ⟨key, member, by simpa using here⟩
        rw [never] at held
        exact Or.inl ⟨kv, held, rfl⟩

theorem incr_writes (ran : runIncr mpf entry data = some (after, reply)) :
    WritesOnly (Stores mpf clock entry data .incr) data after :=
  count_writes Stores.incr ran

theorem decr_writes (ran : runDecr mpf entry data = some (after, reply)) :
    WritesOnly (Stores mpf clock entry data .decr) data after :=
  count_writes Stores.decr ran

theorem replyStored_eq {value : Scalar} (ran : replyStored entry data value = some (after, reply)) :
    after = data := by
  rw [replyStored] at ran
  cases client : entry.client with
  | none =>
      rw [client] at ran
      cases ran
      rfl
  | some protover =>
      rw [client] at ran
      dsimp only at ran
      rw [Option.map_eq_some_iff] at ran
      rcases ran with ⟨element, -, same⟩
      cases same
      rfl

theorem incrby_writes (ran : runIncrby mpf entry data = some (after, reply)) :
    WritesOnly (Stores mpf clock entry data .incrby) data after := by
  rw [runIncrby] at ran
  split at ran
  · next key input args =>
      dsimp only at ran
      split at ran
      · cases ran
        exact WritesOnly.refl data
      rw [getData] at ran
      cases held : data.get key.bytes with
      | none =>
          rw [held] at ran
          dsimp only at ran
          split at ran
          · next integer =>
              cases replyStored_eq ran
              exact WritesOnly.put (get_insert_absent held _)
                (Stores.incrbyNew args integer held)
          · cases ran
            exact WritesOnly.refl data
      | some kv =>
          rcases kv with ⟨value, expiry⟩
          rw [held] at ran
          dsimp only at ran
          split at ran
          · next number =>
              cases replyStored_eq ran
              refine WritesOnly.put (get_changeValue held _) ?_
              split
              · next integer => exact Stores.incrbyInt args integer held
              · exact Stores.incrbyDouble args held _
          · next number =>
              cases replyStored_eq ran
              exact WritesOnly.put (get_changeValue held _) (Stores.incrbyDouble args held _)
          · cases ran
            exact WritesOnly.refl data
  · cases ran
    exact WritesOnly.refl data

theorem decrby_writes (ran : runDecrby mpf entry data = some (after, reply)) :
    WritesOnly (Stores mpf clock entry data .decrby) data after := by
  rw [runDecrby] at ran
  split at ran
  · next key input args =>
      dsimp only at ran
      split at ran
      · cases ran
        exact WritesOnly.refl data
      next numeric =>
      rw [getData] at ran
      cases held : data.get key.bytes with
      | none =>
          rw [held] at ran
          cases replyStored_eq ran
          refine WritesOnly.put (get_insert_absent held _) ?_
          split
          · next integer => exact Stores.decrbyNew args integer held
          · next integer =>
              refine Stores.decrbyNewDouble args integer ?_ held
              rw [Bool.not_eq_true] at integer
              simpa [integer] using numeric
      | some kv =>
          rcases kv with ⟨value, expiry⟩
          rw [held] at ran
          dsimp only at ran
          split at ran
          · next number =>
              cases replyStored_eq ran
              refine WritesOnly.put (get_changeValue held _) ?_
              split
              · next integer => exact Stores.decrbyInt args integer held
              · exact Stores.decrbyDouble args held _
          · next number =>
              cases replyStored_eq ran
              exact WritesOnly.put (get_changeValue held _) (Stores.decrbyDouble args held _)
          · cases ran
            exact WritesOnly.refl data
  · cases ran
    exact WritesOnly.refl data

theorem rename_writes (ran : runRename entry data = some (after, reply)) :
    WritesOnly (Stores mpf clock entry data .rename) data after := by
  rw [runRename] at ran
  split at ran
  · next search name args =>
      rw [getData] at ran
      cases held : data.get search.bytes with
      | none =>
          rw [held] at ran
          cases ran
          exact WritesOnly.refl data
      | some kv =>
          rw [held] at ran
          cases ran
          intro key found present
          rw [Table.get_insert] at present
          split at present
          · next same =>
              rw [Table.get_delete] at present
              split at present
              · rw [Option.none_or] at present
                cases present
                exact Or.inr (same ▸ Stores.rename args held)
              · cases before : data.get key with
                | none =>
                    rw [before, Option.none_or] at present
                    cases present
                    exact Or.inr (same ▸ Stores.rename args held)
                | some former =>
                    rw [before] at present
                    cases present
                    exact Or.inl ⟨found, rfl, rfl⟩
          · exact WritesOnly.delete data search.bytes key found present
  · cases ran
    exact WritesOnly.refl data

/-- DEL leaves what it does not delete. -/
theorem deleteAll_writes {stores : Bytes → Value → Prop} {keys : List Argument} {count : Nat}
    (ran : deleteAll keys data = some (after, count)) : WritesOnly stores data after := by
  induction keys generalizing data count with
  | nil =>
      cases ran
      exact WritesOnly.refl _
  | cons key rest inductionHypothesis =>
      rw [deleteAll, Option.bind_eq_bind, Option.bind_eq_some_iff] at ran
      rcases ran with ⟨⟨middle, first⟩, once, ran⟩
      dsimp only at ran
      rw [Option.bind_eq_bind, Option.bind_eq_some_iff] at ran
      rcases ran with ⟨⟨last, later⟩, ran, same⟩
      cases same
      intro name kv held
      rcases inductionHypothesis ran name kv held with ⟨old, before, same⟩ | stored
      · rw [get_deleteData once] at before
        split at before
        · cases before
        · exact Or.inl ⟨old, before, same⟩
      · exact Or.inr stored

theorem del_writes {stores : Bytes → Value → Prop} (ran : runDel entry data = some (after, reply)) :
    WritesOnly stores data after := by
  rw [runDel] at ran
  split at ran
  · cases ran
    exact WritesOnly.refl data
  · rw [Option.bind_eq_bind, Option.bind_eq_some_iff] at ran
    rcases ran with ⟨⟨deleted, count⟩, ran, same⟩
    cases same
    exact deleteAll_writes ran

theorem setWith_writes {stores : Bytes → Value → Prop} {options : Options} {response : Response}
    {key : Argument}
    (stored : ∀ value, storedScalar (setValue mpf options response) = some value →
      stores key.bytes (.scalar value))
    (ran : runSetWith mpf options response key entry data = some (after, reply)) :
    WritesOnly stores data after := by
  rw [runSetWith] at ran
  split at ran
  · cases ran
    exact WritesOnly.refl data
  split at ran
  · cases ran
    exact WritesOnly.refl data
  have put : ∀ {value : Scalar} {changed : Data},
      storedScalar (setValue mpf options response) = some value →
      setData data (getData data key.bytes) key.bytes (.scalar value) options.expiry =
        some changed → WritesOnly stores data changed :=
    fun typed set => WritesOnly.put (get_setData set) (stored _ typed)
  split at ran
  · split at ran
    · cases ran
      exact WritesOnly.refl data
    · rw [Option.bind_eq_bind, Option.bind_eq_some_iff] at ran
      rcases ran with ⟨value, typed, ran⟩
      rw [Option.bind_eq_bind, Option.bind_eq_some_iff] at ran
      rcases ran with ⟨changed, set, ran⟩
      split at ran
      · cases replyStored_eq ran
        exact put typed set
      · cases ran
        exact put typed set
  · rw [Option.bind_eq_bind, Option.bind_eq_some_iff] at ran
    rcases ran with ⟨value, typed, ran⟩
    rw [Option.bind_eq_bind, Option.bind_eq_some_iff] at ran
    rcases ran with ⟨changed, set, ran⟩
    cases ran
    exact put typed set

theorem set_writes (ran : runSet mpf clock entry data = some (after, reply)) :
    WritesOnly (Stores mpf clock entry data .set) data after := by
  rw [runSet] at ran
  split at ran
  · next key input rest args =>
      rw [Option.bind_eq_bind, Option.bind_eq_some_iff] at ran
      rcases ran with ⟨⟨code, options, response⟩, parsed, ran⟩
      dsimp only at ran
      split at ran
      · next valid =>
          subst valid
          exact setWith_writes (fun value typed => Stores.set args parsed typed) ran
      · cases ran
        exact WritesOnly.refl data
  · cases ran
    exact WritesOnly.refl data

theorem hset_writes (ran : runHset mpf entry data = some (after, reply)) :
    WritesOnly (Stores mpf clock entry data .hset) data after := by
  rw [runHset] at ran
  split at ran
  · next key field rest args =>
      split at ran
      · cases ran
        exact WritesOnly.refl data
      · next paired =>
          have even : (field :: rest).length % 2 = 0 := Decidable.not_not.mp paired
          rw [getData] at ran
          cases held : data.get key.bytes with
          | none =>
              rw [held] at ran
              cases ran
              exact WritesOnly.put (get_insert_absent held _) (Stores.hsetNew args even held)
          | some kv =>
              rcases kv with ⟨value, expiry⟩
              rw [held] at ran
              dsimp only at ran
              split at ran
              · cases ran
                exact WritesOnly.put (get_changeValue held _) (Stores.hset args even held)
              · cases ran
                exact WritesOnly.refl data
  · cases ran
    exact WritesOnly.refl data

theorem hdel_writes (ran : runHdel entry data = some (after, reply)) :
    WritesOnly (Stores mpf clock entry data .hdel) data after := by
  rw [runHdel] at ran
  split at ran
  · next key field rest args =>
      rw [getData] at ran
      cases held : data.get key.bytes with
      | none =>
          rw [held] at ran
          cases ran
          exact WritesOnly.refl data
      | some kv =>
          rcases kv with ⟨value, expiry⟩
          rw [held] at ran
          dsimp only at ran
          split at ran
          · next table =>
              split at ran
              · cases ran
                exact WritesOnly.refl data
              split at ran
              · rw [Option.bind_eq_bind, Option.bind_eq_some_iff] at ran
                rcases ran with ⟨⟨emptied, deleted⟩, ran, same⟩
                cases same
                intro name kv present
                rw [get_deleteData ran, get_changeValue held] at present
                split at present
                · cases present
                · exact Or.inl ⟨kv, present, rfl⟩
              · next nonempty =>
                  cases ran
                  exact WritesOnly.put (get_changeValue held _) (Stores.hdel args held nonempty)
          · cases ran
            exact WritesOnly.refl data
  · cases ran
    exact WritesOnly.refl data

/-- LPUSH and RPUSH. -/
theorem push_writes {command : KeyCommand} {name : String}
    {insert : ListValue → Scalar → ListValue}
    (direction : (command, insert) = (.lpush, ListValue.llInsertFront) ∨
      (command, insert) = (.rpush, ListValue.llInsertBack))
    (ran : runPush mpf name insert entry data = some (after, reply)) :
    WritesOnly (Stores mpf clock entry data command) data after := by
  rw [runPush] at ran
  split at ran
  · next key first rest args =>
      dsimp only [getData] at ran
      cases held : data.get key.bytes with
      | none =>
          rw [held] at ran
          cases ran
          exact WritesOnly.put (get_insert_absent held _)
            (Stores.push direction args (Or.inl ⟨held, rfl⟩))
      | some kv =>
          rcases kv with ⟨value, expiry⟩
          rw [held] at ran
          dsimp only at ran
          split at ran
          · cases ran
            exact WritesOnly.put (get_changeValue held _)
              (Stores.push direction args (Or.inr ⟨expiry, held⟩))
          · cases ran
            exact WritesOnly.refl data
  · cases ran
    exact WritesOnly.refl data

/-- LPOP and RPOP. -/
theorem pop_writes {command : KeyCommand} {name : String} {pointer : ListValue → Option Scalar}
    {remove : ListValue → Option ListValue}
    (direction : (command, remove) = (.lpop, ListValue.llRemoveFront) ∨
      (command, remove) = (.rpop, ListValue.llRemoveBack))
    (ran : runPop name pointer remove entry data = some (after, reply)) :
    WritesOnly (Stores mpf clock entry data command) data after := by
  rw [runPop] at ran
  split at ran
  · next key args =>
      rw [getData] at ran
      cases held : data.get key.bytes with
      | none =>
          rw [held] at ran
          cases ran
          exact WritesOnly.refl data
      | some kv =>
          rcases kv with ⟨value, expiry⟩
          rw [held] at ran
          dsimp only at ran
          split at ran
          · next list =>
              rw [Option.bind_eq_bind, Option.bind_eq_some_iff] at ran
              rcases ran with ⟨popped, -, ran⟩
              split at ran
              · rw [Option.bind_eq_bind, Option.bind_eq_some_iff] at ran
                rcases ran with ⟨⟨deleted, done⟩, ran, same⟩
                cases same
                intro other found present
                rw [get_deleteData ran] at present
                split at present
                · cases present
                · exact Or.inl ⟨found, present, rfl⟩
              · next several =>
                  rw [Option.bind_eq_bind, Option.bind_eq_some_iff] at ran
                  rcases ran with ⟨rest, removed, same⟩
                  cases same
                  exact WritesOnly.put (get_changeValue held _)
                    (Stores.pop direction args held several removed)
          · cases ran
            exact WritesOnly.refl data
  · cases ran
    exact WritesOnly.refl data

/-- What a command leaves under a key was there before, or is one of the values it stores. -/
theorem run_writes {command : KeyCommand}
    (ran : command.run mpf clock entry data = some (after, reply)) :
    WritesOnly (Stores mpf clock entry data command) data after := by
  cases affects : command.affectDatabase with
  | false =>
      obtain ⟨body, same⟩ : ∃ body, command.run mpf clock = reading body := run_eq_reading affects
      rw [same] at ran
      rw [reading_keeps ran]
      exact WritesOnly.refl data
  | true =>
  cases command with
  | append => exact append_writes ran
  | incr => exact incr_writes ran
  | decr => exact decr_writes ran
  | incrby => exact incrby_writes ran
  | decrby => exact decrby_writes ran
  | del => exact del_writes ran
  | rename => exact rename_writes ran
  | set => exact set_writes ran
  | hset => exact hset_writes ran
  | hdel => exact hdel_writes ran
  | lpush => exact push_writes (Or.inl rfl) ran
  | rpush => exact push_writes (Or.inr rfl) ran
  | lpop => exact pop_writes (Or.inl rfl) ran
  | rpop => exact pop_writes (Or.inr rfl) ran
  | _ => cases affects

end TellyDB.Commands.Data
