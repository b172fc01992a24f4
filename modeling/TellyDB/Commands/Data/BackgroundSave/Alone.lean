import TellyDB.Commands.Data.BackgroundSave.Steps

/-!
Owns the thread of BGSAVE where no command runs: its steps write the file that `save_data` writes.
-/

namespace TellyDB.Commands.Data.BackgroundSave

open Resp Lib Interleaving Transition SlotArray TellyDB.Database.File
open Utils (HashTable)
open Utils.HashTable (present)
open TellyDB.Database.Codec
open TellyDB.Database.Keyspace (Value KeyValue)
open TellyDB.Database.Read (LoadedDatabase)

/-! ## The start -/

/-- A save that succeeds, in the parts that the thread takes one by one. -/
theorem start_eq {capacity : Nat} {found : Found} {saved : List SavedDatabase} {bytes : Bytes}
    (whole : saveData always true capacity
      ⟨found.serverAge, found.passwords, saved, found.file⟩ = some (true, bytes)) :
    ∃ state final, start capacity found = .saving 0 .node state ∧
      saveDatabases always state saved = some final ∧ finish found.file final = bytes := by
  simp only [saveData, Option.bind_eq_bind, Option.bind_eq_some_iff] at whole
  obtain ⟨headed, headers, state, ran, whole⟩ := whole
  split at whole
  · cases whole
  · rw [Option.bind_eq_some_iff] at whole
    obtain ⟨final, dumped, whole⟩ := whole
    split at whole
    · cases whole
    · refine ⟨state, final, ?_, dumped, (Prod.mk.inj (Option.some.inj whole)).2⟩
      simp only [start, headers, ran, Option.bind_eq_bind, Option.bind_some, Thread.goOn]

/-! ## The thread alone -/

/-- The estimates of the slots in front of one. -/
def sizeTo (database : Database) (slot : Nat) : Nat :=
  (entries (savedDatabase database).data.elements slot).foldl
    (fun dataSize entry => getMaximumKeyvalueSize entry dataSize) 0

theorem sizeTo_free {database : Database} {slot : Nat}
    (free : database.data.table.elements slot = none) :
    sizeTo database (slot + 1) = sizeTo database slot := by
  rw [sizeTo, sizeTo, entries_succ, savedDatabase_elements, free, Option.map_none,
    Option.toList_none, List.append_nil]

theorem sizeTo_held {database : Database} {slot : Nat} {element : Bytes × KeyValue}
    (held : database.data.table.elements slot = some element) :
    sizeTo database (slot + 1) =
      getMaximumKeyvalueSize (savedEntry element) (sizeTo database slot) := by
  rw [sizeTo, sizeTo, entries_succ, savedDatabase_elements, held, Option.map_some,
    Option.toList_some, List.foldl_append, List.foldl_cons, List.foldl_nil]

theorem sizeTo_capacity (database : Database) :
    sizeTo database database.data.capacity = dataSize (savedDatabase database).data := by
  rw [dataSize, HashTable.foreachHashtable_eq]
  rfl

/-- The thread has sized what lies in front of its slot, or all of it. -/
def Sized (databases : Databases) : Thread → Prop
  | .saving index (.sizing slot size) _ => ∀ database ∈ databases[index]?,
      slot ≤ database.data.capacity ∧ size = sizeTo database slot
  | .saving index (.dumping _ size) _ => ∀ database ∈ databases[index]?,
      size = dataSize (savedDatabase database).data
  | .saving _ .node _ | .done _ | .lost => True

/-- All lists can be walked, and every record fits into the buffer of its database. -/
structure Dumpable (databases : Databases) : Prop where
  walks : ∀ database ∈ databases, ∀ slot < database.data.capacity, ∀ element,
    database.data.table.elements slot = some element → walkable element.2.value = true
  fits : ∀ database ∈ databases, ∀ entry ∈ (savedDatabase database).data.present,
    filledLength entry.2 ≤ dataSize (savedDatabase database).data

section Alone

variable {databases : Databases} {file : Bytes}

theorem Sized.goOn {index : Nat} {stage : Stage}
    (sized : ∀ state, Sized databases (.saving index stage state)) (next : Option State) :
    Sized databases (.goOn index stage next) := by
  cases next with
  | none => trivial
  | some state => exact sized state

theorem Sized.save {thread : Thread} (sized : Sized databases thread) :
    Sized databases (save file databases thread) := by
  cases thread with
  | done bytes => trivial
  | lost => trivial
  | saving index stage state =>
      cases held : databases[index]? with
      | none => cases stage <;> simp only [BackgroundSave.save, held] <;> trivial
      | some database =>
          have only : ∀ other ∈ databases[index]?, database = other := fun other same =>
            Option.some.inj (held.symm.trans same)
          cases stage with
          | node =>
              rw [save_node held]
              apply Sized.goOn
              intro next other same
              exact ⟨Nat.zero_le _, rfl⟩
          | sizing slot size =>
              obtain ⟨within, rfl⟩ := sized database held
              rw [save_sizing held, sizeSlot]
              split
              · next inside =>
                  split
                  · next free =>
                      intro other same
                      rw [← only other same, sizeTo_free free]
                      exact ⟨inside, rfl⟩
                  · next element present =>
                      split
                      · intro other same
                        rw [← only other same, sizeTo_held present]
                        exact ⟨inside, rfl⟩
                      · trivial
              · next beyond =>
                  split
                  · trivial
                  · intro other same
                    rw [← only other same, ← sizeTo_capacity,
                      Nat.le_antisymm within (Nat.le_of_not_lt beyond)]
          | dumping slot size =>
              rw [save_dumping held, dumpSlot]
              split
              · split
                · exact sized
                · apply Sized.goOn
                  exact fun _ => sized
              · trivial

theorem mem_present {database : Database} {slot : Nat} (inside : slot < database.data.capacity)
    {element : Bytes × KeyValue} (held : database.data.table.elements slot = some element) :
    savedEntry element ∈ (savedDatabase database).data.present :=
  mem_entries.mpr ⟨slot, inside, by rw [savedDatabase_elements, held, Option.map_some]⟩

/-- Alone the thread reads what is there, and its buffers suffice. -/
theorem Sized.agrees (dumpable : Dumpable databases) {thread : Thread}
    (sized : Sized databases thread) : Agrees databases databases thread := by
  cases thread with
  | done bytes => trivial
  | lost => trivial
  | saving index stage state =>
      cases stage with
      | node => rfl
      | sizing slot size =>
          intro database held other same
          obtain rfl := Option.some.inj (held.symm.trans same)
          have member := List.mem_of_getElem? held
          obtain ⟨within, sized⟩ := sized database held
          rw [SizesRight]
          split
          · next inside => exact fun element => dumpable.walks database member slot inside element
          · next beyond =>
              intro nothing later
              rw [slotAt]
              split
              · next inside =>
                  cases present : database.data.table.elements later with
                  | none => rfl
                  | some element =>
                      -- a record has a byte, and nothing was estimated
                      have fits := dumpable.fits database member _ (mem_present inside present)
                      have filled := filledLength_eq (savedEntry element).2
                      rw [← sizeTo_capacity, ← Nat.le_antisymm within (Nat.le_of_not_lt beyond),
                        ← sized, nothing, filled, recordLength] at fits
                      omega
              · rfl
      | dumping slot size =>
          intro database held other same
          obtain rfl := Option.some.inj (held.symm.trans same)
          have member := List.mem_of_getElem? held
          rw [DumpsRight]
          split
          · next inside =>
              refine ⟨rfl, fun element present => ⟨?_, ?_⟩⟩
              · exact dumpable.walks database member slot inside element present
              · rw [sized database held]
                exact dumpable.fits database member _ (mem_present inside present)
          · next beyond =>
              intro later behind
              rw [slotAt, if_neg (by omega)]

/-- The reads of a thread that is left alone. -/
theorem guarded_alone {mpf : Mpf} (dumpable : Dumpable databases) {thread : Thread}
    (sized : Sized databases thread) (steps : Nat) :
    Guarded (step mpf file) (OnReads (Agrees databases)) ⟨databases, thread⟩
      (List.replicate steps .read) := by
  induction steps generalizing thread with
  | zero => trivial
  | succ steps inductionHypothesis =>
      refine ⟨sized.agrees dumpable, fun next stepped => ?_⟩
      cases stepped
      exact inductionHypothesis sized.save

/-- The thread finishes what it leads to. -/
theorem reads_finish {mpf : Mpf} {saved : List SavedDatabase} {final : State}
    (generated : (databases.map savedDatabase).mapM writtenDatabase = some saved)
    (dumpable : Dumpable databases) {thread : Thread}
    (leads : Leads databases saved file final thread) (inList : InList databases thread)
    (sized : Sized databases thread) {steps : Nat} (enough : stepsLeft databases thread ≤ steps) :
    run (step mpf file) ⟨databases, thread⟩ (List.replicate steps .read) =
      some ⟨databases, .done (finish file final)⟩ := by
  have ran : run (step mpf file) ⟨databases, thread⟩ (List.replicate steps .read) =
      some ⟨databases, (save file databases)^[steps] thread⟩ := run_reads _ steps
  have led : Leads databases saved file final ((save file databases)^[steps] thread) :=
    leads_run generated leads inList (guarded_alone dumpable sized steps) ran
  rw [ran, led.done_of_ended (save_ends file databases thread enough)]

/-- Alone the thread writes the file of `save_data`. -/
theorem alone_saveData {mpf : Mpf} {capacity : Nat} {found : Found} {saved : List SavedDatabase}
    {bytes : Bytes} (generated : (databases.map savedDatabase).mapM writtenDatabase = some saved)
    (dumpable : Dumpable databases)
    (whole : saveData always true capacity
      ⟨found.serverAge, found.passwords, saved, found.file⟩ = some (true, bytes))
    {steps : Nat} (enough : stepsLeft databases (start capacity found) ≤ steps) :
    run (step mpf found.file) (begin capacity found databases) (List.replicate steps .read) =
      some ⟨databases, .done bytes⟩ := by
  obtain ⟨state, final, begun, dumped, finished⟩ := start_eq whole
  have leads : Leads databases saved found.file final (start capacity found) := by
    rw [begun]
    exact dumped
  rw [begin, ← finished]
  rw [begun] at leads enough ⊢
  exact reads_finish generated dumpable leads trivial trivial enough

end Alone

end TellyDB.Commands.Data.BackgroundSave
