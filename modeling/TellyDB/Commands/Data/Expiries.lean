import TellyDB.Commands.Data.Steps

/-!
Owns when a command sees expired keys: DEL never has them removed, and RENAME has
only the key it renames removed, not the one that stands under the new name.
-/

namespace TellyDB.Commands.Data

open Resp Server Database.Keyspace

variable {mpf : Mpf} {now : Nat}

/-- The keys a command names. -/
def KeyCommand.names : KeyCommand → List Argument → List Argument
  | .decr | .del | .exist | .incr => fun args => args
  | .rename => fun args => args.take 2
  | _ => fun args => args.take 1

/-- As many arguments as the command asks for. -/
def KeyCommand.WellFormed : KeyCommand → List Argument → Prop
  | .decr | .del | .exist | .incr => fun args => args ≠ []
  | .append | .decrby | .incrby | .rename | .hget | .htype | .lindex | .ltype =>
      fun args => args.length = 2
  | .get | .type | .hgetall | .hkeys | .hlen | .hvals | .llen | .lpop | .rpop =>
      fun args => args.length = 1
  | .set | .hdel | .lpush | .rpush => fun args => 2 ≤ args.length
  | .lrange => fun args => args.length = 3
  | .hset => fun args => 3 ≤ args.length ∧ args.length % 2 = 1

/-- What lies under a key of a database. -/
def lookup (databases : Databases) (index : Nat) (key : Bytes) : Option KeyValue :=
  (databases[index]?).bind fun database => getData database.data key

/-- Two outcomes that no reply and no later lookup tells apart. -/
structure Alike (left right : Outcome) : Prop where
  reply : left.reply = right.reply
  selected : left.selected = right.selected
  names : left.databases.map Database.name = right.databases.map Database.name
  lookup : ∀ index key, lookup left.databases index key = lookup right.databases index key

/-- The databases without the expired keys among these of one database. -/
def withoutExpired (now : Nat) (keys : List Argument) (index : Nat) (databases : Databases) :
    Databases :=
  databases.modify index fun database =>
    { database with data := removeAllExpired now keys database.data }

/-- An expired key lies under this name. -/
def Expired (now : Nat) (data : Data) (key : Argument) : Prop :=
  ∃ kv, data.get key.bytes = some kv ∧ kv.expiredAt now = true

/-- DEL tells a client that it deleted an expired key, and RENAME finds one under the new name. -/
def SeesExpired (now : Nat) (command : KeyCommand) (entry : Entry) (data : Data) : Prop :=
  match command, entry.args with
  | .del, args => entry.client ≠ none ∧ ∃ key ∈ args, Expired now data key
  | .rename, [search, name] => search.bytes ≠ name.bytes ∧ Expired now data name
  | _, _ => False

/-! ## Removing expired keys -/

theorem get_removeExpired (data : Data) (key : Argument) (name : Bytes) :
    (removeExpired now data key).get name =
      if key.bytes = name then (data.get name).filter fun kv => !kv.expiredAt now
      else data.get name := by
  rw [removeExpired]
  cases held : data.get key.bytes with
  | none =>
      dsimp only
      split
      · next same =>
          rw [same] at held
          rw [held]
          rfl
      · rfl
  | some kv =>
      dsimp only
      by_cases late : kv.expiredAt now = true
      · rw [if_pos late, Database.Table.get_delete]
        split
        · next same =>
            rw [same] at held
            simp [held, Option.filter, late]
        · rfl
      · rw [if_neg late]
        split
        · next same =>
            rw [same] at held
            simp [held, Option.filter, late]
        · rfl

theorem get_removeAllExpired (keys : List Argument) (data : Data) (name : Bytes) :
    (removeAllExpired now keys data).get name =
      if ∃ key ∈ keys, key.bytes = name then (data.get name).filter fun kv => !kv.expiredAt now
      else data.get name := by
  rw [removeAllExpired]
  induction keys generalizing data with
  | nil => simp
  | cons key rest inductionHypothesis =>
      rw [List.foldl_cons, inductionHypothesis, get_removeExpired]
      by_cases here : key.bytes = name
      · simp only [List.mem_cons, exists_eq_or_imp, here, true_or, if_true]
        split
        · rw [Option.filter_filter]
          congr 1
          funext kv
          exact Bool.and_self _
        · rfl
      · simp [here]

/-- Nothing is removed where no key is expired. -/
theorem removeAllExpired_of_fresh {keys : List Argument} {data : Data}
    (fresh : ∀ key ∈ keys, ¬Expired now data key) : removeAllExpired now keys data = data := by
  rw [removeAllExpired]
  induction keys with
  | nil => rfl
  | cons key rest inductionHypothesis =>
      have first : removeExpired now data key = data := by
        rw [removeExpired]
        cases held : data.get key.bytes with
        | none => rfl
        | some kv =>
            have early : ¬kv.expiredAt now = true :=
              fun late => fresh key List.mem_cons_self ⟨kv, held, late⟩
            exact if_neg early
      rw [List.foldl_cons, first]
      exact inductionHypothesis fun key member => fresh key (List.mem_cons_of_mem _ member)

/-- What was removed is not found expired again. -/
theorem not_expired_removed {keys : List Argument} {data : Data} {key : Argument}
    (member : key ∈ keys) : ¬Expired now (removeAllExpired now keys data) key := by
  rintro ⟨kv, held, late⟩
  rw [get_removeAllExpired, if_pos ⟨key, member, rfl⟩, Option.filter_eq_some_iff] at held
  simp [late] at held

theorem removeAllExpired_again {listed all : List Argument} (within : ∀ key ∈ listed, key ∈ all)
    (data : Data) : removeAllExpired now listed (removeAllExpired now all data) =
      removeAllExpired now all data :=
  removeAllExpired_of_fresh fun key member => not_expired_removed (within key member)

/-! ## One transaction -/

theorem ready_now (command : KeyCommand) (args : List Argument) (data : Data) :
    ready (some now) command args data =
      if command.accessDatabase then removeAllExpired now (command.getKeys args) data
      else data := by
  rw [ready, retryKeyspace_now]

/-- Except for RENAME a command lists the keys that it names. -/
theorem getKeys_eq_names {command : KeyCommand} {args : List Argument}
    (wellFormed : command.WellFormed args) (other : command ≠ .rename) :
    command.getKeys args = command.names args := by
  have two : ∀ {args : List Argument}, 2 ≤ args.length → firstOfTwo args = args.take 1 :=
    fun long => if_neg (Nat.not_lt_of_le long)
  have exact : ∀ {count : Nat} {args : List Argument}, args.length = count →
      firstOf count args = args.take 1 := fun length => if_neg (fun differs => differs length)
  cases command with
  | rename => exact absurd rfl other
  | append | decrby | incrby | hget | htype | lindex | ltype => exact exact wellFormed
  | get | type | hgetall | hkeys | hlen | hvals | llen | lpop | rpop => exact exact wellFormed
  | lrange => exact exact wellFormed
  | set | hdel | lpush | rpush => exact two wellFormed
  | hset =>
      rcases args with _ | ⟨key, _ | ⟨field, rest⟩⟩
      · exact absurd wellFormed.1 (Nat.not_succ_le_zero 2)
      · exact absurd wellFormed.1 (Nat.not_succ_le_self 1 ∘ Nat.le_of_succ_le)
      · have even : (field :: rest).length % 2 = 0 := by
          have odd := wellFormed.2
          simp only [List.length_cons] at odd ⊢
          omega
        exact if_neg fun odd => odd even
  | decr | del | exist | incr => rfl

/-- One transaction on the databases without the expired keys. -/
theorem execute_without {command : KeyCommand} {entry : Entry} {index : Nat}
    {databases : Databases}
    (permitted : entry.permissions &&& command.permissions = command.permissions)
    (keys : List Argument) :
    executeTransaction (some now) (DataCommand.command mpf (.key command)) entry index
        (withoutExpired now keys index databases) =
      (databases[index]?).bind fun database =>
        (command.run mpf (some now) entry
          (ready (some now) command entry.args (removeAllExpired now keys database.data))).map
            fun after => ⟨setDataAt databases index after.1, after.2, none⟩ := by
  rw [execute_key permitted, withoutExpired, List.getElem?_modify_eq]
  cases databases[index]? with
  | none => rfl
  | some database =>
      simp only [setDataAt_modify]
      rfl

theorem lookup_setDataAt {databases : Databases} {index : Nat} {database : Database}
    (held : databases[index]? = some database) (data : Data) (place : Nat) (key : Bytes) :
    lookup (setDataAt databases index data) place key =
      if index = place then data.get key else lookup databases place key := by
  rw [lookup, setDataAt]
  split
  · next same =>
      rw [← same, List.getElem?_modify_eq, held]
      rfl
  · next apart =>
      rw [List.getElem?_modify_ne _ _ apart]
      rfl

/-- Two outcomes of commands on one database. -/
theorem alike_iff {databases : Databases} {index : Nat} {database : Database}
    (held : databases[index]? = some database) (left right : Data × Reply) :
    Alike ⟨setDataAt databases index left.1, left.2, none⟩
        ⟨setDataAt databases index right.1, right.2, none⟩ ↔
      left.2 = right.2 ∧ ∀ key, left.1.get key = right.1.get key := by
  constructor
  · intro alike
    refine ⟨alike.reply, fun key => ?_⟩
    have same := alike.lookup index key
    rwa [lookup_setDataAt held, lookup_setDataAt held, if_pos rfl, if_pos rfl] at same
  · rintro ⟨reply, same⟩
    refine ⟨reply, rfl, ?_, fun place key => ?_⟩
    · have names : ∀ data, (setDataAt databases index data).map Database.name =
          databases.map Database.name := by
        intro data
        apply List.ext_getElem?
        intro place
        rw [setDataAt, List.getElem?_map, List.getElem?_map, List.getElem?_modify]
        cases databases[place]? with
        | none => rfl
        | some other => split <;> rfl
      rw [names, names]
    · rw [lookup_setDataAt held, lookup_setDataAt held, same key]

/-! ## RENAME -/

/-- The name that RENAME does not list is expired. -/
theorem rename_apart {search name : Argument} {data : Data} {entry : Entry}
    (args : entry.args = [search, name]) (apart : search.bytes ≠ name.bytes)
    (expired : Expired now data name) {left right : Data × Reply}
    (actual : runRename entry (removeAllExpired now [search] data) = some left)
    (fresh : runRename entry (removeAllExpired now [search, name] data) = some right) :
    left.1.get name.bytes ≠ right.1.get name.bytes := by
  rcases expired with ⟨old, held, late⟩
  have before : (removeAllExpired now [search] data).get name.bytes = some old := by
    rw [get_removeAllExpired, if_neg (by simpa using apart), held]
  have removed : (removeAllExpired now [search, name] data).get name.bytes = none := by
    rw [get_removeAllExpired, if_pos ⟨name, by simp, rfl⟩, held]
    simp [Option.filter, late]
  have moved : (removeAllExpired now [search, name] data).get search.bytes =
      (removeAllExpired now [search] data).get search.bytes := by
    rw [get_removeAllExpired, get_removeAllExpired, if_pos ⟨search, by simp, rfl⟩,
      if_pos ⟨search, by simp, rfl⟩]
  rw [runRename, args] at actual fresh
  dsimp only [getData] at actual fresh
  rw [moved] at fresh
  cases source : (removeAllExpired now [search] data).get search.bytes with
  | none =>
      rw [source] at actual fresh
      cases actual
      cases fresh
      rw [before, removed]
      exact fun same => nomatch same
  | some kv =>
      rw [source] at actual fresh
      cases actual
      cases fresh
      dsimp only
      rw [Database.Table.get_insert, Database.Table.get_insert, if_pos rfl, if_pos rfl,
        Database.Table.get_delete, Database.Table.get_delete, if_neg apart, if_neg apart, before,
        removed]
      intro same
      have early : ¬Expired now (removeAllExpired now [search] data) search :=
        not_expired_removed (List.mem_singleton_self search)
      rw [Option.some_or, Option.none_or, Option.some.injEq] at same
      exact early ⟨kv, source, same ▸ late⟩

/-! ## DEL -/

theorem deleteData_eq (data : Data) (key : Bytes) :
    deleteData data key = match data.get key with
      | none => some (data, false)
      | some kv => (freeValue kv.value).map fun _ => ((data.delete key).1, true) := by
  rw [deleteData, getData]
  cases data.get key with
  | none => rfl
  | some kv =>
      dsimp only
      cases freeValue kv.value <;> rfl

theorem Fewer.delete_absent {less more : Data} (fewer : Fewer less more) {key : Bytes}
    (absent : less.get key = none) : Fewer less (more.delete key).1 := by
  intro name
  rw [Database.Table.get_delete]
  split
  · next same => exact Or.inl (same ▸ absent)
  · exact fewer name

theorem get_deleteAll {keys : List Argument} {data after : Data} {count : Nat}
    (deleted : deleteAll keys data = some (after, count)) (name : Bytes) :
    after.get name = if ∃ key ∈ keys, key.bytes = name then none else data.get name := by
  induction keys generalizing data count with
  | nil =>
      cases deleted
      simp
  | cons key rest inductionHypothesis =>
      simp only [deleteAll, deleteData_eq, Option.bind_eq_bind, Option.bind_eq_some_iff] at deleted
      rcases deleted with ⟨⟨middle, first⟩, once, ⟨last, later⟩, others, same⟩
      cases same
      rw [inductionHypothesis others]
      have step : middle.get name = if key.bytes = name then none else data.get name := by
        cases held : data.get key.bytes with
        | none =>
            rw [held] at once
            cases once
            split
            · next here => rw [← here, held]
            · rfl
        | some kv =>
            rw [held, Option.map_eq_some_iff] at once
            rcases once with ⟨-, -, same⟩
            cases same
            rw [Database.Table.get_delete]
      rw [step]
      by_cases here : key.bytes = name <;> simp [here]

/-- With fewer keys DEL deletes fewer of them, unless it finds all of those it names. -/
theorem deleteAll_fewer {keys : List Argument} {less more after : Data} {count : Nat}
    (fewer : Fewer less more) (deleted : deleteAll keys more = some (after, count)) :
    ∃ afterLess countLess, deleteAll keys less = some (afterLess, countLess) ∧
      countLess ≤ count ∧
        (countLess = count ↔ ∀ key ∈ keys, less.get key.bytes = more.get key.bytes) := by
  induction keys generalizing less more count with
  | nil =>
      cases deleted
      exact ⟨less, 0, rfl, Nat.le_refl _, by simp⟩
  | cons key rest inductionHypothesis =>
      simp only [deleteAll, deleteData_eq, Option.bind_eq_bind, Option.bind_eq_some_iff] at deleted
      rcases deleted with ⟨⟨middle, first⟩, once, ⟨last, later⟩, others, same⟩
      cases same
      simp only [deleteAll, deleteData_eq, Option.bind_eq_bind, List.forall_mem_cons]
      cases held : more.get key.bytes with
      | none =>
          rw [held] at once
          cases once
          have absent : less.get key.bytes = none := by
            rcases fewer key.bytes with same | absent
            · rw [same, held]
            · exact absent
          rcases inductionHypothesis fewer others with ⟨afterLess, countLess, ran, le, iff⟩
          refine ⟨afterLess, countLess, ?_, ?_, ?_⟩
          · simp [absent, ran]
          · simpa using le
          · simpa [absent] using iff
      | some kv =>
          rw [held, Option.map_eq_some_iff] at once
          rcases once with ⟨⟨⟩, freed, same⟩
          cases same
          rcases fewer key.bytes with same | absent
          · rw [held] at same
            rcases inductionHypothesis (fewer.delete key.bytes) others with
              ⟨afterLess, countLess, ran, le, iff⟩
            refine ⟨afterLess, countLess + 1, ?_, ?_, ?_⟩
            · simp [same, freed, ran, Nat.add_comm]
            · simp only [Bool.toNat_true]
              omega
            · have agree : (∀ other ∈ rest, (less.delete key.bytes).1.get other.bytes =
                  (more.delete key.bytes).1.get other.bytes) ↔
                    ∀ other ∈ rest, less.get other.bytes = more.get other.bytes := by
                refine forall₂_congr fun other _ => ?_
                rw [Database.Table.get_delete, Database.Table.get_delete]
                split
                · next here => simp [← here, same, held]
                · rfl
              rw [← agree, ← iff]
              simp only [same, Bool.toNat_true, true_and]
              omega
          · rcases inductionHypothesis (fewer.delete_absent absent) others with
              ⟨afterLess, countLess, ran, le, -⟩
            refine ⟨afterLess, countLess, ?_, ?_, ?_⟩
            · simp [absent, ran]
            · simp only [Bool.toNat_true]
              omega
            · simp only [absent, Bool.toNat_true]
              constructor
              · intro equal
                omega
              · rintro ⟨same, -⟩
                cases same

/-- All keys are found after the removal exactly when none of them was expired. -/
theorem agree_removed_iff (keys : List Argument) (data : Data) :
    (∀ key ∈ keys, (removeAllExpired now keys data).get key.bytes = data.get key.bytes) ↔
      ¬∃ key ∈ keys, Expired now data key := by
  rw [not_exists]
  refine forall_congr' fun key => ?_
  rw [not_and]
  refine forall_congr' fun member => ?_
  rw [get_removeAllExpired, if_pos ⟨key, member, rfl⟩, Expired]
  cases data.get key.bytes with
  | none => simp
  | some kv => by_cases late : kv.expiredAt now = true <;> simp [Option.filter, late]

/-- DEL on all keys, and on those that are not expired. -/
theorem del_alike_iff {entry : Entry} {data : Data} {left : Data × Reply}
    (nonempty : entry.args ≠ []) (actual : runDel entry data = some left) :
    ∃ right, runDel entry (removeAllExpired now entry.args data) = some right ∧
      ((left.2 = right.2 ∧ ∀ key, left.1.get key = right.1.get key) ↔
        ¬(entry.client ≠ none ∧ ∃ key ∈ entry.args, Expired now data key)) := by
  have long : ¬entry.args.length = 0 := fun length => nonempty (List.length_eq_zero_iff.mp length)
  rw [runDel, if_neg long, Option.bind_eq_bind, Option.bind_eq_some_iff] at actual
  rcases actual with ⟨⟨after, count⟩, deleted, same⟩
  cases same
  rcases deleteAll_fewer (fewer_removeAllExpired now entry.args data) deleted with
    ⟨afterLess, countLess, ran, -, iff⟩
  refine ⟨(afterLess, entry.answer (.integer countLess)), ?_, ?_⟩
  · rw [runDel, if_neg long, ran]
    rfl
  · have keys : ∀ key, after.get key = afterLess.get key := by
      intro key
      rw [get_deleteAll deleted, get_deleteAll ran]
      split
      · rfl
      · next absent => rw [get_removeAllExpired, if_neg absent]
    rw [agree_removed_iff] at iff
    rw [← iff.not_left]
    cases connected : entry.client with
    | none => simp [Entry.answer, connected, keys]
    | some protover => simp [Entry.answer, connected, keys, Reply.integer, eq_comm]

/-! ## All commands -/

/-- What a command finds when it runs, with and without its expired keys. -/
theorem ready_without {command : KeyCommand} {args : List Argument} {data : Data}
    (wellFormed : command.WellFormed args) (del : command ≠ .del) (rename : command ≠ .rename) :
    ready (some now) command args (removeAllExpired now (command.names args) data) =
      ready (some now) command args data := by
  have access : command.accessDatabase = true := by
    cases command with
    | del => exact absurd rfl del
    | _ => rfl
  rw [ready_now, ready_now, if_pos access, if_pos access, getKeys_eq_names wellFormed rename,
    removeAllExpired_again (fun key member => member)]

theorem ready_rename (search name : Argument) (data : Data) :
    ready (some now) .rename [search, name] data = removeAllExpired now [search] data :=
  ready_now _ _ _

theorem ready_rename_without (search name : Argument) (data : Data) :
    ready (some now) .rename [search, name] (removeAllExpired now [search, name] data) =
      removeAllExpired now [search, name] data := by
  rw [ready_rename]
  refine removeAllExpired_again (fun key member => ?_) data
  rw [List.mem_singleton] at member
  rw [member]
  exact List.mem_cons_self

/-- RENAME finds the same, unless an expired key stands under another new name. -/
theorem ready_rename_fresh {search name : Argument} {data : Data}
    (fresh : ¬(search.bytes ≠ name.bytes ∧ Expired now data name)) :
    ready (some now) .rename [search, name] (removeAllExpired now [search, name] data) =
      ready (some now) .rename [search, name] data := by
  rw [ready_rename_without, ready_rename]
  show removeAllExpired now [name] (removeAllExpired now [search] data) = _
  refine removeAllExpired_of_fresh fun key member => ?_
  rw [List.mem_singleton] at member
  subst member
  rintro ⟨kv, held, late⟩
  rw [get_removeAllExpired] at held
  split at held
  · simp [Option.filter_eq_some_iff, late] at held
  · next apart =>
      exact fresh ⟨fun same => apart ⟨search, List.mem_singleton_self search, same⟩, kv, held, late⟩

/-- A command that returns leaves the same reply and the same keys as if the expired keys it names
had been removed beforehand, exactly when it does not see one of them. -/
theorem expired_invisible_iff {command : KeyCommand} {entry : Entry} {index : Nat}
    {databases : Databases} {database : Database} {actual : Outcome}
    (wellFormed : command.WellFormed entry.args)
    (permitted : entry.permissions &&& command.permissions = command.permissions)
    (held : databases[index]? = some database)
    (ran : executeTransaction (some now) (DataCommand.command mpf (.key command)) entry index
      databases = some actual) :
    (∃ fresh, executeTransaction (some now) (DataCommand.command mpf (.key command)) entry index
        (withoutExpired now (command.names entry.args) index databases) = some fresh ∧
          Alike actual fresh) ↔
      ¬SeesExpired now command entry database.data := by
  rw [execute_without permitted, held, Option.bind_some]
  rw [execute_key permitted, held, Option.bind_some, Option.map_eq_some_iff] at ran
  rcases ran with ⟨left, actually, same⟩
  cases same
  have unchanged : ready (some now) command entry.args
      (removeAllExpired now (command.names entry.args) database.data) =
        ready (some now) command entry.args database.data →
      ∃ fresh, ((command.run mpf (some now) entry (ready (some now) command entry.args
        (removeAllExpired now (command.names entry.args) database.data))).map
          fun after => Outcome.mk (setDataAt databases index after.1) after.2 none) = some fresh ∧
        Alike ⟨setDataAt databases index left.1, left.2, none⟩ fresh := by
    intro same
    rw [same, actually]
    exact ⟨_, rfl, rfl, rfl, rfl, fun _ _ => rfl⟩
  by_cases del : command = .del
  · subst del
    have direct : ∀ data, ready (some now) .del entry.args data = data := fun data => rfl
    rw [direct] at actually ⊢
    obtain ⟨right, fresh, iff⟩ : ∃ right,
        runDel entry (removeAllExpired now entry.args database.data) = some right ∧
          ((left.2 = right.2 ∧ ∀ key, left.1.get key = right.1.get key) ↔
            ¬(entry.client ≠ none ∧ ∃ key ∈ entry.args, Expired now database.data key)) :=
      del_alike_iff wellFormed actually
    have runs : KeyCommand.del.run mpf (some now) entry
        (removeAllExpired now entry.args database.data) = some right := fresh
    have seen : SeesExpired now .del entry database.data ↔
        (entry.client ≠ none ∧ ∃ key ∈ entry.args, Expired now database.data key) := Iff.rfl
    rw [seen, ← iff, ← alike_iff held]
    show (∃ fresh, ((KeyCommand.del.run mpf (some now) entry
      (removeAllExpired now entry.args database.data)).map _) = some fresh ∧ _) ↔ _
    rw [runs]
    simp only [Option.map_some, Option.some.injEq, exists_eq_left']
  by_cases rename : command = .rename
  · subst rename
    rcases entry with ⟨client, args, permissions⟩
    have two : args.length = 2 := wellFormed
    rcases List.length_eq_two.mp two with ⟨search, name, rfl⟩
    constructor
    · rintro ⟨fresh, ranFresh, alike⟩ ⟨apart, expired⟩
      rw [Option.map_eq_some_iff] at ranFresh
      rcases ranFresh with ⟨right, freshly, same⟩
      cases same
      have names : KeyCommand.rename.names [search, name] = [search, name] := rfl
      rw [names, ready_rename_without] at freshly
      rw [ready_rename] at actually
      let entry : Entry := ⟨client, [search, name], permissions⟩
      have moved : runRename entry (removeAllExpired now [search] database.data) = some left :=
        actually
      have movedFresh : runRename entry (removeAllExpired now [search, name] database.data) =
        some right := freshly
      have differ := rename_apart rfl apart expired moved movedFresh
      exact differ (((alike_iff held _ _).mp alike).2 name.bytes)
    · exact fun fresh => unchanged (ready_rename_fresh fresh)
  · have blind : ¬SeesExpired now command entry database.data := by
      cases command with
      | del => exact absurd rfl del
      | rename => exact absurd rfl rename
      | _ => exact fun seen => seen
    exact ⟨fun _ => blind, fun _ => unchanged (ready_without wellFormed del rename)⟩

/-- One database with an integer that expires at time 5. -/
def expiringDatabase : Database :=
  ⟨text "main", (Database.Table.create 16 capacity_positive).insert (text "k") ⟨.scalar (.int 1), some 5⟩⟩

/-- A command on the key, from a client that may do everything. -/
def sampleEntry (args : List Argument) : Entry := ⟨some .resp3, args, Permission.all⟩

theorem expired_invisible_get : (∃ fresh, executeTransaction (some 7)
      (DataCommand.command Mpf.unused (.key .get)) (sampleEntry [⟨text "k", []⟩]) 0
      (withoutExpired 7 [⟨text "k", []⟩] 0 [expiringDatabase]) = some fresh ∧
        Alike ((executeTransaction (some 7) (DataCommand.command Mpf.unused (.key .get))
          (sampleEntry [⟨text "k", []⟩]) 0 [expiringDatabase]).get (by decide +kernel)) fresh) ↔
    ¬SeesExpired 7 .get (sampleEntry [⟨text "k", []⟩]) expiringDatabase.data :=
  expired_invisible_iff rfl (by decide) rfl (Option.some_get _).symm

/-- DEL counts a key that expired before it. -/
theorem expired_deleted : ¬∀ (command : KeyCommand) (entry : Entry) (index : Nat)
    (databases : Databases) (actual : Outcome), command.WellFormed entry.args →
    entry.permissions &&& command.permissions = command.permissions →
    executeTransaction (some 7) (DataCommand.command Mpf.unused (.key command)) entry index
      databases = some actual →
    ∃ fresh, executeTransaction (some 7) (DataCommand.command Mpf.unused (.key command)) entry
      index (withoutExpired 7 (command.names entry.args) index databases) = some fresh ∧
        Alike actual fresh := by
  intro all
  let entry := sampleEntry [⟨text "k", []⟩]
  have returns : (executeTransaction (some 7) (DataCommand.command Mpf.unused (.key .del)) entry 0
      [expiringDatabase]).map Outcome.reply = some (.integer 1) := by decide +kernel
  have returnsFresh : (executeTransaction (some 7) (DataCommand.command Mpf.unused (.key .del))
      entry 0 (withoutExpired 7 entry.args 0 [expiringDatabase])).map Outcome.reply =
        some (.integer 0) := by decide +kernel
  rw [Option.map_eq_some_iff] at returns
  rcases returns with ⟨actual, ran, replied⟩
  rcases all .del entry 0 [expiringDatabase] actual (List.cons_ne_nil _ _) (by decide) ran with
    ⟨fresh, ranFresh, alike⟩
  have same : entry.args = KeyCommand.del.names entry.args := rfl
  rw [same, ranFresh, Option.map_some, ← alike.reply, replied] at returnsFresh
  cases returnsFresh

end TellyDB.Commands.Data
