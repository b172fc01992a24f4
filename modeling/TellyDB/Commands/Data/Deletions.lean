import TellyDB.Commands.Data.Collections

/-!
Owns what DEL and HDEL count and delete. Both take the names one by one, so a name
counts once however often it is listed; what DEL frees of a list follows the links to
its end, which the last RPOP may have left on a freed node.
-/

namespace TellyDB.Commands.Data

open Resp Server Database.Keyspace
open TellyDB.Database (Scalar Table)

variable {entry : Entry} {data after : Data} {key : Argument}

/-- What the arguments name, each once. -/
def distinctNames (names : List Argument) : List Bytes := (names.map Argument.bytes).dedup

/-- DEL replies with the number of distinct keys that were present, and leaves all others. -/
def DeletesKeys (entry : Entry) (data : Data) : Prop :=
  ∃ after, runDel entry data = some (after, entry.answer (.integer
      ((distinctNames entry.args).filter fun name => (data.get name).isSome).length)) ∧
    ∀ name, after.get name =
      if name ∈ entry.args.map Argument.bytes then none else data.get name

/-- HDEL replies with the number of distinct fields that were present, and leaves all others; the
key goes when none is left. -/
def DeletesFields (entry : Entry) (data : Data) (key : Argument) (names : List Argument)
    (table : Table Scalar) (expiry : Option Nat) : Prop :=
  let left : Bytes → Option Scalar := fun name =>
    if name ∈ names.map Argument.bytes then none else table.get name
  ∃ after, runHdel entry data = some (after, entry.answer (.integer
      ((distinctNames names).filter fun name => (table.get name).isSome).length)) ∧
    (after.get key.bytes = none ↔ ∀ name, left name = none) ∧
    (∀ kv, after.get key.bytes = some kv →
      ∃ remaining, kv = ⟨.hashtable remaining, expiry⟩ ∧ ∀ name, remaining.get name = left name) ∧
    ∀ name, name ≠ key.bytes → after.get name = data.get name

/-! ## DEL -/

theorem count_deleteData {deleted : Bool} (ran : deleteData data key.bytes = some (after, deleted)) :
    data.count = deleted.toNat + after.count := by
  have removed : ∀ name, after.get name =
      if name ∈ [key.bytes] then none else data.get name := by
    intro name
    rw [get_deleteData ran]
    simp [eq_comm]
  rw [Table.count_removed removed]
  congr 1
  rw [deleteData_eq] at ran
  cases held : data.get key.bytes with
  | none =>
      simp only [held, Option.some.injEq, Prod.mk.injEq] at ran
      simp [← ran.2, held]
  | some kv =>
      simp only [held, Option.map_eq_some_iff, Prod.mk.injEq] at ran
      obtain ⟨-, -, -, rfl⟩ := ran
      simp [held]

/-- The keys that are deleted are those by which the database shrinks. -/
theorem count_deleteAll {keys : List Argument} {count : Nat}
    (ran : deleteAll keys data = some (after, count)) : data.count = count + after.count := by
  induction keys generalizing data count with
  | nil =>
      simp only [deleteAll, Option.some.injEq, Prod.mk.injEq] at ran
      simp [← ran.1, ← ran.2]
  | cons key rest inductionHypothesis =>
      simp only [deleteAll, Option.bind_eq_bind, Option.bind_eq_some_iff] at ran
      obtain ⟨⟨middle, deleted⟩, once, ⟨last, later⟩, others, same⟩ := ran
      simp only [Option.some.injEq, Prod.mk.injEq] at same
      obtain ⟨rfl, rfl⟩ := same
      have first := count_deleteData once
      have second : middle.count = later + last.count := inductionHypothesis others
      omega

/-- DEL is defined when none of the keys holds a list that cannot be freed. -/
theorem deleteAll_isSome (keys : List Argument) (data : Data) :
    (deleteAll keys data).isSome ↔ ∀ key ∈ keys, Freeable data key := by
  induction keys generalizing data with
  | nil => simp [deleteAll]
  | cons key rest inductionHypothesis =>
      rw [List.forall_mem_cons, ← deleteData_isSome]
      cases once : deleteData data key.bytes with
      | none => simp [deleteAll, once]
      | some result =>
          obtain ⟨middle, deleted⟩ := result
          have freeable_iff : ∀ other : Argument, Freeable data key →
              (Freeable middle other ↔ Freeable data other) := by
            intro other freeable
            by_cases same : key.bytes = other.bytes
            · simp [Freeable, get_deleteData once, ← same]
              exact freeable
            · simp [Freeable, get_deleteData once, same]
          have freeable : Freeable data key := deleteData_isSome.mp (by rw [once]; rfl)
          have rest_iff := inductionHypothesis middle
          simp only [freeable_iff _ freeable] at rest_iff
          rw [← rest_iff]
          cases others : deleteAll rest middle <;> simp [deleteAll, once, others]

theorem mem_bytes_iff (names : List Argument) (name : Bytes) :
    name ∈ names.map Argument.bytes ↔ ∃ argument ∈ names, argument.bytes = name := List.mem_map

theorem deletesKeys_iff (nonempty : entry.args ≠ []) :
    DeletesKeys entry data ↔ ∀ key ∈ entry.args, Freeable data key := by
  have positive : ¬entry.args.length = 0 := fun none => nonempty (List.eq_nil_of_length_eq_zero none)
  rw [← deleteAll_isSome, DeletesKeys, runDel, if_neg positive]
  cases ran : deleteAll entry.args data with
  | none => simp
  | some result =>
      obtain ⟨reached, count⟩ := result
      have reads : ∀ name, reached.get name =
          if name ∈ entry.args.map Argument.bytes then none else data.get name := by
        intro name
        simp only [get_deleteAll ran, mem_bytes_iff]
      have counted := count_deleteAll ran
      have removed := Table.count_removed reads
      have exactly : count =
          ((distinctNames entry.args).filter fun name => (data.get name).isSome).length := by
        rw [distinctNames]
        omega
      simp only [Option.isSome_some, iff_true]
      exact ⟨reached, by rw [← exactly]; rfl, reads⟩

/-! ## HDEL -/

/-- HDEL deletes the fields it names, and the key when no field is left. -/
theorem deletesFields {names : List Argument} {table : Table Scalar} {expiry : Option Nat}
    (args : entry.args = key :: names) (nonempty : names ≠ [])
    (held : data.get key.bytes = some ⟨.hashtable table, expiry⟩)
    (permitted : entry.permissions &&& Permission.read ≠ 0) :
    DeletesFields entry data key names table expiry := by
  obtain ⟨field, rest, rfl⟩ := List.exists_cons_of_ne_nil nonempty
  have reads : ∀ name, (deleteFields (field :: rest) table).get name =
      if name ∈ (field :: rest).map Argument.bytes then none else table.get name := by
    intro name
    simp only [get_deleteFields, mem_bytes_iff]
  have removed := Table.count_removed reads
  have exactly : table.count - (deleteFields (field :: rest) table).count =
      ((distinctNames (field :: rest)).filter fun name => (table.get name).isSome).length := by
    rw [distinctNames]
    omega
  have changed := get_changeValue held (.hashtable (deleteFields (field :: rest) table))
  have emptied_iff : (deleteFields (field :: rest) table).count = 0 ↔ ∀ name,
      (if name ∈ (field :: rest).map Argument.bytes then none else table.get name) = none := by
    rw [← not_iff_not, ← ne_eq, Table.count_ne_zero_iff]
    simp only [reads, not_forall, ← ne_eq, Option.ne_none_iff_exists']
  by_cases emptied : (deleteFields (field :: rest) table).count = 0
  · obtain ⟨⟨reached, deleted⟩, done⟩ : ∃ result, deleteData (changeValue data key.bytes
        ⟨.hashtable table, expiry⟩ (.hashtable (deleteFields (field :: rest) table))) key.bytes =
          some result := by
      rw [← Option.isSome_iff_exists, deleteData_isSome]
      intro list deadline found
      rw [changed, if_pos rfl] at found
      cases found
    have gone := get_deleteData done
    refine ⟨reached, ?_, ?_, ?_, ?_⟩
    · rw [runHdel, args]
      simp only [getData, held, permitted, if_false, emptied, if_true, done, ← exactly]
      rfl
    · rw [gone, if_pos rfl, ← emptied_iff]
      simp [emptied]
    · intro kv found
      rw [gone, if_pos rfl] at found
      cases found
    · intro name other
      rw [gone, if_neg other.symm, changed, if_neg other.symm]
  · refine ⟨changeValue data key.bytes ⟨.hashtable table, expiry⟩
      (.hashtable (deleteFields (field :: rest) table)), ?_, ?_, ?_, ?_⟩
    · rw [runHdel, args]
      simp only [getData, held, permitted, if_false, emptied, ← exactly]
    · rw [changed, if_pos rfl, ← emptied_iff]
      simp [emptied]
    · intro kv found
      rw [changed, if_pos rfl] at found
      cases found
      exact ⟨_, rfl, reads⟩
    · intro name other
      rw [changed, if_neg other.symm]

/-! ## Both -/

/-- HDEL counts and deletes exactly, and so does DEL as long as the lists it frees end in NULL. -/
theorem deletions_exact (entry : Entry) (data : Data) :
    (entry.args ≠ [] → (DeletesKeys entry data ↔ ∀ key ∈ entry.args, Freeable data key)) ∧
    ∀ key names table expiry, entry.args = key :: names → names ≠ [] →
      data.get key.bytes = some ⟨.hashtable table, expiry⟩ →
      entry.permissions &&& Permission.read ≠ 0 →
      DeletesFields entry data key names table expiry :=
  ⟨deletesKeys_iff, fun _ _ _ _ => deletesFields⟩

/-- A key with a hash table of one field. -/
def oneField : Data :=
  (Table.create 16 capacity_positive).insert (text "h")
    ⟨.hashtable ((Table.create 16 capacity_positive).insert (text "f") (.int 1)), none⟩

def argument (name : String) : Argument := ⟨text name, [0]⟩

/-- HDEL h f f and DEL h h of a hash table with the field f. -/
theorem deletions_exact_repeated :
    DeletesKeys ⟨some .resp3, [argument "h", argument "h"], Permission.all⟩ oneField ∧
    DeletesFields ⟨some .resp3, [argument "h", argument "f", argument "f"], Permission.all⟩
      oneField (argument "h") [argument "f", argument "f"]
      ((Table.create 16 capacity_positive).insert (text "f") (.int 1)) none := by
  have held : oneField.get (text "h") = some
      ⟨.hashtable ((Table.create 16 capacity_positive).insert (text "f") (.int 1)), none⟩ := by
    rw [oneField, get_insert_absent (Table.get_create ..), if_pos rfl]
  refine ⟨((deletions_exact _ _).1 (by simp)).mpr ?_,
    (deletions_exact _ _).2 _ _ _ _ rfl (by simp) held (by decide)⟩
  intro key member list expiry found
  have same : key.bytes = text "h" := by
    simp only [List.mem_cons, List.not_mem_nil, or_false, or_self] at member
    rw [member]
    rfl
  rw [same, held] at found
  cases found

/-- What RPUSH l a b and RPOP l leave of an empty database. -/
def poppedList : Option Data := do
  let (pushed, _) ← runRpush Mpf.unused
    ⟨some .resp3, [argument "l", argument "a", argument "b"], Permission.all⟩
    (Table.create 16 capacity_positive)
  let (popped, _) ← runRpop ⟨some .resp3, [argument "l"], Permission.all⟩ pushed
  some popped

/-- DEL l follows the link to the node that RPOP l has freed. -/
theorem del_follows_freed : ∃ data, poppedList = some data ∧
    ¬ DeletesKeys ⟨some .resp3, [argument "l"], Permission.all⟩ data := by
  have made : (poppedList.map fun data => (deleteData data (text "l")).isSome) = some false := by
    decide +kernel
  obtain ⟨data, ran, freed⟩ := Option.map_eq_some_iff.mp made
  refine ⟨data, ran, ?_⟩
  rw [deletesKeys_iff (by simp)]
  intro all
  have freeable := all (argument "l") (List.mem_singleton_self _)
  rw [← deleteData_isSome] at freeable
  exact absurd (freed.symm.trans freeable) (by decide)

end TellyDB.Commands.Data
