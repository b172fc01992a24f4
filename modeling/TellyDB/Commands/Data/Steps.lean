import TellyDB.Commands.Data.Execution

/-!
Owns what one transaction of a command that takes keys amounts to: the expired keys
that `get_keys` lists are deleted from its database, and the handler runs on the rest.
-/

namespace TellyDB.Commands.Data

open Resp Server Database.Keyspace

variable {mpf : Mpf} {clock : Option Nat}

/-- The key is deleted when it is expired. -/
def removeExpired (now : Nat) (data : Data) (key : Argument) : Data :=
  match data.get key.bytes with
  | none => data
  | some kv => if kv.expiredAt now then (data.delete key.bytes).1 else data

/-- The keys that are expired are deleted one by one. -/
def removeAllExpired (now : Nat) (keys : List Argument) (data : Data) : Data :=
  keys.foldl (removeExpired now) data

theorem checkKvExpiries_now (now : Nat) (data : Data) (key : Argument) :
    checkKvExpiries (some now) data key.bytes = (removeExpired now data key, true) := by
  rw [checkKvExpiries, removeExpired, getData]
  cases held : data.get key.bytes with
  | none => rfl
  | some kv =>
      dsimp only
      cases expiry : kv.expiry with
      | none => simp [checkKvExpiry, KeyValue.expiredAt, expiry]
      | some deadline =>
          by_cases late : kv.expiredAt now = true <;> simp [checkKvExpiry, expiry, late]

theorem checkKeyspace_now (now : Nat) (keys : List Argument) (data : Data) :
    checkKeyspace (some now) keys data = (removeAllExpired now keys data, true) := by
  induction keys generalizing data with
  | nil => rfl
  | cons key rest inductionHypothesis =>
      rw [checkKeyspace, checkKvExpiries_now]
      exact inductionHypothesis _

theorem retryKeyspace_now (now : Nat) (keys : List Argument) (data : Data) :
    retryKeyspace (some now) keys expiryRetryCount data = removeAllExpired now keys data := by
  rw [expiryRetryCount, retryKeyspace, checkKeyspace_now]

/-- Fewer keys under the same names. -/
def Fewer (less more : Data) : Prop :=
  ∀ key, less.get key = more.get key ∨ less.get key = none

theorem Fewer.delete {less more : Data} (fewer : Fewer less more) (key : Bytes) :
    Fewer (less.delete key).1 (more.delete key).1 := by
  intro name
  rw [Database.Table.get_delete, Database.Table.get_delete]
  split
  · exact Or.inl rfl
  · exact fewer name

theorem fewer_removeExpired (now : Nat) (data : Data) (key : Argument) :
    Fewer (removeExpired now data key) data := by
  rw [removeExpired]
  split
  · exact fun name => Or.inl rfl
  · split
    · intro name
      rw [Database.Table.get_delete]
      split
      · exact Or.inr rfl
      · exact Or.inl rfl
    · exact fun name => Or.inl rfl

theorem Fewer.trans {least less more : Data} (first : Fewer least less)
    (second : Fewer less more) : Fewer least more := by
  intro name
  rcases first name with same | absent
  · rw [same]
    exact second name
  · exact Or.inr absent

theorem fewer_removeAllExpired (now : Nat) (keys : List Argument) (data : Data) :
    Fewer (removeAllExpired now keys data) data := by
  rw [removeAllExpired]
  induction keys generalizing data with
  | nil => exact fun name => Or.inl rfl
  | cons key rest inductionHypothesis =>
      exact (inductionHypothesis _).trans (fewer_removeExpired now data key)

/-- Where the clock cannot be read nothing is removed. -/
theorem checkKeyspace_unread (keys : List Argument) (data : Data) :
    (checkKeyspace none keys data).1 = data := by
  induction keys with
  | nil => rfl
  | cons key rest inductionHypothesis =>
      have first : (checkKvExpiries none data key.bytes).1 = data := by
        rw [checkKvExpiries]
        cases held : getData data key.bytes with
        | none => rfl
        | some kv =>
            rcases kv with ⟨value, expiry⟩
            cases expiry <;> rfl
      rw [checkKeyspace]
      split
      · next same =>
          rw [same] at first
          exact first
      · next same =>
          rw [same] at first
          cases first
          exact inductionHypothesis

theorem retryKeyspace_unread (keys : List Argument) (turns : Nat) (data : Data) :
    retryKeyspace none keys turns data = data := by
  induction turns with
  | zero => rfl
  | succ turns inductionHypothesis =>
      have kept := checkKeyspace_unread keys data
      rw [retryKeyspace]
      split
      · next same =>
          rw [same] at kept
          exact kept
      · next same =>
          rw [same] at kept
          cases kept
          exact inductionHypothesis

/-- The keys of the database that a command finds when it runs. -/
def ready (clock : Option Nat) (command : KeyCommand) (args : List Argument) (data : Data) : Data :=
  if command.accessDatabase then retryKeyspace clock (command.getKeys args) expiryRetryCount data
  else data

/-- Without a clock no key is known to be expired. -/
theorem ready_unread (command : KeyCommand) (args : List Argument) (data : Data) :
    ready none command args data = data := by
  rw [ready, retryKeyspace_unread, ite_self]

theorem fewer_ready (clock : Option Nat) (command : KeyCommand) (args : List Argument)
    (data : Data) : Fewer (ready clock command args data) data := by
  rw [ready]
  split
  · cases clock with
    | none =>
        rw [retryKeyspace_unread]
        exact fun name => Or.inl rfl
    | some now =>
        rw [retryKeyspace_now]
        exact fewer_removeAllExpired now _ data
  · exact fun name => Or.inl rfl

theorem onDatabase_eq (run : Run) (entry : Entry) (index : Nat) (databases : Databases) :
    onDatabase run entry index databases =
      (databases[index]?).bind fun database => (run entry database.data).map
        fun after => ⟨setDataAt databases index after.1, after.2, none⟩ := by
  rw [onDatabase]
  cases databases[index]? with
  | none => rfl
  | some database =>
      show Option.bind (run entry database.data) _ = Option.map _ (run entry database.data)
      cases run entry database.data <;> rfl

/-- A command overwrites the keys that were there before it. -/
theorem setDataAt_modify (databases : Databases) (index : Nat) (change : Data → Data)
    (data : Data) :
    setDataAt (databases.modify index fun database =>
      { database with data := change database.data }) index data =
        setDataAt databases index data := by
  rw [setDataAt, setDataAt, List.modify_modify_eq]
  rfl

theorem onDatabase_modify (run : Run) (entry : Entry) (index : Nat) (databases : Databases)
    (change : Data → Data) :
    onDatabase run entry index (databases.modify index fun database =>
      { database with data := change database.data }) =
        (databases[index]?).bind fun database => (run entry (change database.data)).map
          fun after => ⟨setDataAt databases index after.1, after.2, none⟩ := by
  rw [onDatabase_eq, List.getElem?_modify_eq]
  cases databases[index]? with
  | none => rfl
  | some database =>
      simp only [setDataAt_modify]
      rfl

/-- A client that lacks a permission is told so. -/
theorem execute_denied {command : Command} {entry : Entry} {index : Nat} {databases : Databases}
    {outcome : Outcome} (denied : entry.permissions &&& command.permissions ≠ command.permissions)
    (ran : executeTransaction clock command entry index databases = some outcome) :
    outcome.databases = databases := by
  rw [executeTransaction, if_pos denied] at ran
  cases client : entry.client with
  | none =>
      rw [client] at ran
      cases ran
  | some protover =>
      rw [client] at ran
      cases ran
      rfl

theorem execute_permitted {command : Command} {entry : Entry} {index : Nat}
    {databases : Databases}
    (permitted : entry.permissions &&& command.permissions = command.permissions) :
    executeTransaction clock command entry index databases =
      command.run clock entry index (expireKeys clock command entry.args index databases) := by
  rw [executeTransaction, if_neg (fun denied => denied permitted)]

/-- One transaction of a command that takes keys. -/
theorem execute_key {command : KeyCommand} {entry : Entry} {index : Nat} {databases : Databases}
    (permitted : entry.permissions &&& command.permissions = command.permissions) :
    executeTransaction clock (DataCommand.command mpf (.key command)) entry index databases =
      (databases[index]?).bind fun database =>
        (command.run mpf clock entry (ready clock command entry.args database.data)).map
          fun after => ⟨setDataAt databases index after.1, after.2, none⟩ := by
  rw [execute_permitted permitted, DataCommand.command]
  cases access : command.accessDatabase with
  | true =>
      simp only [expireKeys, ready, access, if_true]
      exact onDatabase_modify _ _ _ _ _
  | false =>
      simp only [expireKeys, ready, access, Bool.false_eq_true, if_false]
      exact onDatabase_eq _ _ _ _

end TellyDB.Commands.Data
