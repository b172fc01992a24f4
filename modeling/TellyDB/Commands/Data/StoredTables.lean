import TellyDB.Commands.TableListings
import TellyDB.Utils.HashTable.Growth
import TellyDB.Utils.HashTable.Values

/-!
Owns what HSET and the commands that read a hash table make of the keys and the fields in
memory, whatever the arrays contain that their tables grow into. With cleared arrays this is
what the commands make of the databases.
-/

namespace TellyDB.Commands.Data

open Resp Server Utils Utils.HashTable Database.Keyspace Lib FiniteMap SlotArray
open TellyDB.Database (Scalar Table stringKeys)

/-- `Value`, with what lies in the array of a hash table. -/
inductive StoredValue where
  | scalar (value : Scalar)
  | hashtable (table : FieldTable)
  | list (list : ListValue)

/-- `KeyValue`. -/
structure StoredKeyValue where
  value : StoredValue
  expiry : Option Nat

/-- The keys of a database. -/
abbrev KeyTable := HashTable Bytes StoredKeyValue

/-- What memory holds of a value. -/
def storedValue : Value → StoredValue
  | .scalar value => .scalar value
  | .hashtable table => .hashtable table.table
  | .list list => .list list

/-- What memory holds of a key. -/
def stored (kv : KeyValue) : StoredKeyValue := ⟨storedValue kv.value, kv.expiry⟩

/-- The keys of a database in memory. -/
def memory (data : Data) : KeyTable := data.table.mapValues stored

/-- What `get_from_hashtable` finds under a name, as `get_data` does. -/
def lookUp {V : Type} (table : HashTable Bytes V) (name : Bytes) : Option (Option V) :=
  (getFromHashtable table.capacity table name).map (Option.map Prod.snd)

/-- An assignment through the `kv` that `get_data` found. -/
def assignStored (keys : KeyTable) (name : Bytes) (kv : StoredKeyValue) : Option KeyTable := do
  match ← probe keys.capacity keys name with
  | none => some keys
  | some index =>
      some { keys with
        elements := Function.update keys.elements index
          ((keys.elements index).map fun element => (element.1, kv)) }

/-- The arrays that the allocator has for the tables that grow: for the insertion of each field,
and for that of the key. -/
structure Arrays where
  fields : Nat → FieldArray
  keys : Nat → Option (HashTableElement Bytes StoredKeyValue)

/-- Memory that is cleared. -/
def Arrays.cleared : Arrays := ⟨fun _ _ => none, fun _ => none⟩

variable (mpf : Mpf)

/-- `HSET`. -/
def hsetStored (arrays : Arrays) (entry : Entry) (keys : KeyTable) : Option (KeyTable × Reply) :=
  match entry.args with
  | key :: field :: rest =>
      if (field :: rest).length % 2 ≠ 0 then
        some (keys, entry.answer (.wrongArgumentError "HSET"))
      else do
        let reply := entry.answer (.integer ((field :: rest).length / 2))
        match ← lookUp keys key.bytes with
        | some kv =>
            match kv.value with
            | .hashtable table => do
                let table ← insertFields mpf arrays.fields 0 (field :: rest) table
                let keys ← assignStored keys key.bytes { kv with value := .hashtable table }
                some (keys, reply)
            | _ => some (keys, entry.answer (.invalidTypeError "HSET"))
        | none => do
            -- the key is stored first, and the loop fills the table that it leads to
            let table ← insertFields mpf arrays.fields 0 (field :: rest)
              (createHashtable 16 stringKeys)
            let (keys, _) ← insertIntoHashtable (2 * keys.capacity) arrays.keys keys key.bytes
              ⟨.hashtable table, none⟩
            some (keys, reply)
  | _ => some (keys, entry.answer (.wrongArgumentError "HSET"))

/-- What the reading commands on hash tables share. -/
def onStoredTable (name : String) (absent : Reply) (key : Argument) (keys : KeyTable)
    (body : FieldTable → Option Reply) : Option Reply := do
  match ← lookUp keys key.bytes with
  | none => some absent
  | some kv =>
      match kv.value with
      | .hashtable table => body table
      | _ => some (.invalidTypeError name)

/-- `HGET`. -/
def hgetStored (args : List Argument) (keys : KeyTable) : Option Reply :=
  match args with
  | [key, name] => onStoredTable "HGET" .null key keys fun table => do
      match ← lookUp table name.bytes with
      | some value => (writeScalar value).map .element
      | none => some .null
  | _ => some (.wrongArgumentError "HGET")

/-- `HTYPE`. -/
def htypeStored (args : List Argument) (keys : KeyTable) : Option Reply :=
  match args with
  | [key, name] => onStoredTable "HTYPE" .null key keys fun table => do
      match ← lookUp table name.bytes with
      | some value => (getRespTypeName value.type).map .element
      | none => some .null
  | _ => some (.wrongArgumentError "HTYPE")

/-- `HGETALL`. -/
def hgetallStored (args : List Argument) (keys : KeyTable) : Option Reply :=
  match args with
  | [key] => onStoredTable "HGETALL" (.map 0 []) key keys fun table =>
      some (.map table.count
        (table.present.flatMap fun field => .string field.1 :: dumpValue field.2))
  | _ => some (.wrongArgumentError "HGETALL")

/-- `HVALS`. -/
def hvalsStored (args : List Argument) (keys : KeyTable) : Option Reply :=
  match args with
  | [key] => onStoredTable "HVALS" (.array 0 []) key keys fun table =>
      some (.array table.count (table.present.flatMap fun field => dumpValue field.2))
  | _ => some (.wrongArgumentError "HVALS")

/-! ## The databases in memory -/

section Memory

variable {mpf} {data : Data}

theorem lookUp_memory (data : Data) (name : Bytes) :
    lookUp (memory data) name = some ((data.get name).map stored) := by
  have found := getFromHashtable_mapValues stored data.table.capacity data.table name
  rw [data.roomy.wellFormed.getFromHashtable_eq name (Nat.le_refl _), data.keys_eq] at found
  rw [lookUp, show getFromHashtable (memory data).capacity (memory data) name = _ from found,
    Table.get_eq_find]
  simp [Table.entries, Function.comp_def]

/-- An assignment to a key that is found. -/
theorem assignStored_memory {name : Bytes} {kv : KeyValue} (held : data.get name = some kv)
    (after : KeyValue) :
    assignStored (memory data) name (stored after) = some (memory (data.assign name after)) := by
  have probed : probe (memory data).capacity (memory data) name =
      probe data.capacity data.table name := probe_mapValues stored _ _ _
  rcases data.roomy.wellFormed.probe_eq name with
    ⟨absent, -⟩ | ⟨index, bound, ⟨occupant, former⟩, occupied, -, found⟩
  · rw [Table.get_eq_find, Table.entries, ← data.keys_eq, absent] at held
    cases held
  · have stopped := found data.capacity (Nat.le_refl _)
    rw [assignStored, probed, Table.assign, stopped]
    have slot : (memory data).elements index = some (occupant, stored former) :=
      congrArg (Option.map (Prod.map id stored)) occupied
    simp only [Option.bind_eq_bind, Option.bind_some, slot, Option.map_some]
    split
    · next other _ again =>
        rw [occupied] at again
        cases again
        exact congrArg some (congrArg (HashTable.mk _ _ · _)
          (mapSlots_update index (occupant, after)).symm)
    · next free =>
        rw [occupied] at free
        cases free

/-- A key that is found holds what is assigned to it. -/
theorem lookUp_assignStored {name : Bytes} {kv : KeyValue} (held : data.get name = some kv)
    {value : StoredKeyValue} {after : KeyTable}
    (assigned : assignStored (memory data) name value = some after) :
    lookUp after name = some (some value) := by
  have formed : (memory data).WellFormed := data.roomy.wellFormed.mapValues
  have keys_eq : (memory data).keys = stringKeys := data.keys_eq
  have read := lookUp_memory data name
  rw [held, lookUp, formed.getFromHashtable_eq name (Nat.le_refl _)] at read
  rcases formed.probe_eq name with
    ⟨absent, -⟩ | ⟨index, bound, ⟨occupant, former⟩, occupied, found, probed⟩
  · rw [absent] at read
    cases read
  · have same := (formed.distinct.find_eq_some_iff.mp found).2
    rw [keys_eq, Table.same_iff] at same
    change occupant = name at same
    subst same
    rw [assignStored, probed _ (Nat.le_refl _)] at assigned
    simp only [Option.bind_eq_bind, Option.bind_some, occupied, Option.map_some,
      Option.some.injEq] at assigned
    have assignedFormed : after.WellFormed := assigned ▸ formed.assign occupied
    subst assigned
    have now := assignedFormed.distinct.find_eq_some_iff.mpr
      ⟨mem_entries.mpr ⟨index, bound, Function.update_self ..⟩,
        KeyEquality.refl _ occupant⟩
    rw [lookUp, assignedFormed.getFromHashtable_eq occupant (Nat.le_refl _), now]
    rfl

/-- An insertion that grows into a cleared array. -/
theorem insertIntoHashtable_memory (data : Data) (name : Bytes) (kv : KeyValue) :
    ∃ result, insertIntoHashtable (2 * (memory data).capacity) Arrays.cleared.keys (memory data)
      name (stored kv) = some (memory (data.insert name kv), result) := by
  obtain ⟨element, inserted⟩ := data.insertIntoHashtable_eq name kv
  have read := insertIntoHashtable_mapValues stored (2 * data.capacity) (fun _ => none)
    data.table name kv
  rw [inserted] at read
  exact ⟨_, read⟩

/-- Storing a key that is absent, where the table grows into free slots. -/
theorem exists_storeKey {name : Bytes} (absent : data.get name = none)
    {fresh : Nat → Option (HashTableElement Bytes StoredKeyValue)}
    (clean : (memory data).GrowsClean fresh) (kv : StoredKeyValue) :
    ∃ after result, insertIntoHashtable (2 * (memory data).capacity) fresh (memory data) name kv =
        some (after, result) ∧
      (∀ other, lookUp after other =
        some (if name = other then some kv else (data.get other).map stored)) ∧
      (after.present.map Prod.fst).Perm (name :: data.entries.map Prod.fst) ∧
      after.count = after.present.length := by
  have formed : (memory data).WellFormed := data.roomy.wellFormed.mapValues
  have keys_eq : (memory data).keys = stringKeys := data.keys_eq
  have slots : (memory data).present = data.entries.map (Prod.map id stored) :=
    present_mapValues data.table
  have missing : find stringKeys.equality (memory data).present name = none := by
    rw [Table.get_eq_find, Option.map_eq_none_iff] at absent
    rw [slots, find_map, absent]
    rfl
  obtain ⟨after, ends, afterFormed, afterKeys, entered⟩ :=
    formed.insertIntoHashtable_clean clean name kv
  rw [keys_eq, insertIfAbsent, missing] at entered
  refine ⟨after, _, ends _ (Nat.le_refl _), ?_, ?_, afterFormed.counted⟩
  · intro other
    have found := afterFormed.getFromHashtable_eq other (Nat.le_refl _)
    rw [afterFormed.distinct.find_perm entered, afterKeys, keys_eq, Table.find_cons, slots,
      find_map] at found
    rw [lookUp, found, Table.get_eq_find]
    split <;> simp [Function.comp_def]
  · have names := entered.map Prod.fst
    rw [slots, List.map_cons, List.map_map] at names
    exact names

/-- Where every array is cleared, HSET does in memory what it does on the database. -/
theorem hsetStored_memory (entry : Entry) (data : Data) :
    hsetStored mpf .cleared entry (memory data) =
      (runHset mpf entry data).map (Prod.map memory id) := by
  obtain ⟨client, args, permissions⟩ := entry
  match args with
  | [] => rfl
  | [_] => rfl
  | key :: field :: rest =>
      rw [hsetStored, runHset]
      by_cases odd : (field :: rest).length % 2 ≠ 0
      · simp only [if_pos odd]
        rfl
      · simp only [if_neg odd]
        rw [lookUp_memory, getData]
        simp only [Option.bind_eq_bind, Option.bind_some]
        cases held : data.get key.bytes with
        | none =>
            have filled : insertFields mpf Arrays.cleared.fields 0 (field :: rest)
                (createHashtable 16 stringKeys) = some (setFields mpf (field :: rest)
                  (Table.create 16 capacity_positive)).table :=
              insertFields_table (fun _ _ => rfl) 0 (field :: rest)
                (Table.create 16 capacity_positive)
            obtain ⟨result, inserted⟩ := insertIntoHashtable_memory data key.bytes
              ⟨.hashtable (setFields mpf (field :: rest) (Table.create 16 capacity_positive)),
                none⟩
            simp only [Option.map_none, filled, Option.bind_some]
            change (insertIntoHashtable _ _ (memory data) key.bytes (stored ⟨.hashtable _,
              none⟩)).bind _ = _
            rw [inserted]
            rfl
        | some kv =>
            obtain ⟨value, expiry⟩ := kv
            cases value with
            | scalar value => rfl
            | list list => rfl
            | hashtable table =>
                have filled : insertFields mpf Arrays.cleared.fields 0 (field :: rest) table.table =
                    some (setFields mpf (field :: rest) table).table :=
                  insertFields_table (fun _ _ => rfl) 0 (field :: rest) table
                have assigned := assignStored_memory held
                  ⟨.hashtable (setFields mpf (field :: rest) table), expiry⟩
                simp only [Option.map_some, stored, storedValue] at assigned ⊢
                simp only [filled, Option.bind_some, assigned]
                rfl

end Memory

/-! ## What the commands read -/

section Reads

variable {keys : KeyTable} {key name : Argument} {kv : StoredKeyValue} {data : Data}
  {protover : ProtocolVersion} {args : List Argument} {permissions : Permissions}

theorem lookUp_table {V : Type} (table : Table V) (name : Bytes) :
    lookUp table.table name = some (table.get name) := by
  have found := table.roomy.wellFormed.getFromHashtable_eq name (Nat.le_refl _)
  rw [table.keys_eq] at found
  rw [lookUp, found, Table.get_eq_find]
  rfl

theorem onStoredTable_memory (name : String) (absent : Reply) (key : Argument) (data : Data)
    {stored : FieldTable → Option Reply} {body : Table Scalar → Option Reply}
    (same : ∀ table : Table Scalar, stored table.table = body table) :
    onStoredTable name absent key (memory data) stored = onTable name absent key data body := by
  rw [onStoredTable, onTable, lookUp_memory, getData]
  simp only [Option.bind_eq_bind, Option.bind_some]
  cases data.get key.bytes with
  | none => rfl
  | some kv =>
      obtain ⟨value, expiry⟩ := kv
      cases value with
      | hashtable table => exact same table
      | scalar value => rfl
      | list list => rfl

theorem runHget_eq : runHget ⟨some protover, args, permissions⟩ data =
    (hgetStored args (memory data)).map fun reply => (data, reply) := by
  match args with
  | [] | [_] | _ :: _ :: _ :: _ => rfl
  | [key, name] =>
      apply congrArg (Option.map fun reply => (data, reply))
      apply (onStoredTable_memory ..).symm
      intro table
      rw [lookUp_table]
      rfl

theorem runHtype_eq : runHtype ⟨some protover, args, permissions⟩ data =
    (htypeStored args (memory data)).map fun reply => (data, reply) := by
  match args with
  | [] | [_] | _ :: _ :: _ :: _ => rfl
  | [key, name] =>
      apply congrArg (Option.map fun reply => (data, reply))
      apply (onStoredTable_memory ..).symm
      intro table
      rw [lookUp_table]
      rfl

theorem runHgetall_eq : runHgetall ⟨some protover, args, permissions⟩ data =
    (hgetallStored args (memory data)).map fun reply => (data, reply) := by
  match args with
  | [] | _ :: _ :: _ => rfl
  | [key] =>
      apply congrArg (Option.map fun reply => (data, reply))
      apply (onStoredTable_memory ..).symm
      intro table
      rfl

theorem runHvals_eq : runHvals ⟨some protover, args, permissions⟩ data =
    (hvalsStored args (memory data)).map fun reply => (data, reply) := by
  match args with
  | [] | _ :: _ :: _ => rfl
  | [key] =>
      apply congrArg (Option.map fun reply => (data, reply))
      apply (onStoredTable_memory ..).symm
      intro table
      rfl

end Reads

end TellyDB.Commands.Data
