import TellyDB.Commands.Data.Tables
import TellyDB.Commands.Data.Writes

/-!
Owns what RENAME does to the keys. It removes the old key, whatever lies under the new
one, and inserts its value under the new name; the insertion declines in silence when
the new key exists, and the value is gone.
-/

namespace TellyDB.Commands.Data

open Resp Server Database.Keyspace
open TellyDB.Database (Table)

variable {entry : Entry} {data : Data} {search name : Argument}

/-- RENAME moves a key to an absent one; an absent key is answered by a null, an existing new key
by an error, and both leave the database as it is. No value is lost. -/
def Renames (entry : Entry) (data : Data) (search name : Argument) : Prop :=
  ∃ after reply, runRename entry data = some (after, reply) ∧
    (∀ kv, data.get search.bytes = some kv → data.get name.bytes = none →
      after.get name.bytes = some kv ∧ after.get search.bytes = none ∧
        ∀ other, other ≠ search.bytes → other ≠ name.bytes → after.get other = data.get other) ∧
    (data.get search.bytes = none ∨ data.get name.bytes ≠ none →
      (∀ other, after.get other = data.get other) ∧
        (data.get search.bytes = none ∧ reply = entry.answer .null ∨
          data.get name.bytes ≠ none ∧ ∃ message, reply = entry.answer (.error message))) ∧
    data.count ≤ after.count

theorem answer_eq {reply other : Reply} (different : reply ≠ other) :
    entry.answer reply = entry.answer other ↔ entry.client = none := by
  cases connected : entry.client <;> simp [Entry.answer, connected, different]

/-- The insertion keeps what lies under the new key, and the old key is gone. -/
theorem rename_onto {kv old : KeyValue} (args : entry.args = [search, name])
    (different : search.bytes ≠ name.bytes) (held : data.get search.bytes = some kv)
    (target : data.get name.bytes = some old) :
    ∃ after, runRename entry data = some (after, entry.answer .ok) ∧
      after.get search.bytes = none ∧ after.get name.bytes = some old := by
  refine ⟨(data.delete search.bytes).1.insert name.bytes kv, ?_, ?_, ?_⟩
  · simp [runRename, args, getData, held]
  · rw [Table.get_insert, if_neg different.symm, Table.get_delete, if_pos rfl]
  · rw [Table.get_insert, if_pos rfl, Table.get_delete, if_neg different, target, Option.some_or]

theorem not_renames_onto {kv old : KeyValue} (args : entry.args = [search, name])
    (different : search.bytes ≠ name.bytes) (held : data.get search.bytes = some kv)
    (target : data.get name.bytes = some old) : ¬ Renames entry data search name := by
  obtain ⟨lost, ran, gone, -⟩ := rename_onto args different held target
  rintro ⟨after, reply, ranAgain, -, unchanged, -⟩
  rw [ran, Option.some.injEq, Prod.mk.injEq] at ranAgain
  obtain ⟨rfl, -⟩ := ranAgain
  have kept := (unchanged (Or.inr (by simp [target]))).1 search.bytes
  rw [gone, held] at kept
  cases kept

/-- RENAME does its work where the old key is present and the new one absent; else it leaves the
database alone only where the old key is absent too, and then answers with an error. -/
theorem rename_moves_iff (args : entry.args = [search, name])
    (different : search.bytes ≠ name.bytes) :
    Renames entry data search name ↔
      (data.get search.bytes).isSome ∧ data.get name.bytes = none ∨
        data.get search.bytes = none ∧
          ((data.get name.bytes).isSome ∨ entry.client = none) := by
  cases held : data.get search.bytes with
  | none =>
      have ran : runRename entry data =
          some (data, entry.answer (.error "The new key already exists")) := by
        simp [runRename, args, getData, held]
      cases target : data.get name.bytes with
      | none =>
          have unlike : entry.answer (.error "The new key already exists") =
              entry.answer .null ↔ entry.client = none := answer_eq (by decide)
          simp [Renames, ran, held, target, unlike]
      | some kv =>
          simp only [Renames, ran, held, target, Option.some.injEq, Prod.mk.injEq]
          simp
          exact Or.inr ⟨_, rfl⟩
  | some kv =>
      have ran : runRename entry data =
          some ((data.delete search.bytes).1.insert name.bytes kv, entry.answer .ok) := by
        simp [runRename, args, getData, held]
      cases target : data.get name.bytes with
      | none =>
          have missing : (data.delete search.bytes).1.get name.bytes = none := by
            rw [Table.get_delete, if_neg different, target]
          have moved := get_insert_absent missing kv
          have counted := (Table.count_insert_absent missing kv).trans (Table.count_delete held)
          simp only [Renames, ran, held, target, Option.isSome_some, and_self, true_or, iff_true]
          refine ⟨_, _, rfl, ?_, by simp, counted.ge⟩
          intro moving same _
          cases same
          refine ⟨by rw [moved, if_pos rfl], ?_, ?_⟩
          · rw [moved, if_neg different.symm, Table.get_delete, if_pos rfl]
          · intro other apart distinct
            rw [moved, if_neg distinct.symm, Table.get_delete, if_neg apart.symm]
      | some old =>
          have fails := not_renames_onto args different held target
          simp [fails]

def oldName : Argument := ⟨text "a", [0]⟩

def newName : Argument := ⟨text "b", [0]⟩

/-- One key, and a second one. -/
def oneKey : Data :=
  (Table.create 16 capacity_positive).insert oldName.bytes ⟨.scalar (.int 1), none⟩

def twoKeys : Data := oneKey.insert newName.bytes ⟨.scalar (.int 2), some 5⟩

/-- RENAME a b. -/
def renameEntry : Entry := ⟨some .resp3, [oldName, newName], Permission.all⟩

theorem oneKey_held (key : Bytes) :
    oneKey.get key = if oldName.bytes = key then some ⟨.scalar (.int 1), none⟩ else none := by
  rw [oneKey, get_insert_absent (Table.get_create ..), Table.get_create]

theorem names_different : oldName.bytes ≠ newName.bytes := by decide

theorem rename_moves_one : Renames renameEntry oneKey oldName newName :=
  (rename_moves_iff rfl names_different).mpr (Or.inl ⟨by simp [oneKey_held],
    by rw [oneKey_held, if_neg names_different]⟩)

/-- The value of a is lost where b exists. -/
theorem rename_loses_value : oldName.bytes ≠ newName.bytes ∧
    (∃ after, runRename renameEntry twoKeys = some (after, renameEntry.answer .ok) ∧
      after.get oldName.bytes = none ∧
      after.get newName.bytes = some ⟨.scalar (.int 2), some 5⟩) ∧
    ¬ Renames renameEntry twoKeys oldName newName := by
  have absent : oneKey.get newName.bytes = none := by rw [oneKey_held, if_neg names_different]
  have target : twoKeys.get newName.bytes = some ⟨.scalar (.int 2), some 5⟩ := by
    rw [twoKeys, get_insert_absent absent, if_pos rfl]
  have held : twoKeys.get oldName.bytes = some ⟨.scalar (.int 1), none⟩ := by
    rw [twoKeys, get_insert_absent absent, if_neg names_different.symm, oneKey_held,
      if_pos rfl]
  exact ⟨names_different, rename_onto rfl names_different held target,
    not_renames_onto rfl names_different held target⟩

end TellyDB.Commands.Data
