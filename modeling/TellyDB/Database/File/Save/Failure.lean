import TellyDB.Database.File.Save.Trace

/-!
Owns what a failed write makes of a save: it ends cleanly, with every buffer freed
once, exactly when the write that fails first is not one of `dump_into_file`, whose
caller goes on with the buffers that it frees.
-/

namespace TellyDB.Database.File

open Resp Lib Lib.Slices Lib.Positional Lib.Lifetimes

/-! ## What a trace says -/

/-- A write reads the block. -/
def Event.access? : Event → Option (Access Buffer)
  | .buffer access => some access
  | .write _ _ => some (.use .block)
  | _ => none

def Event.written? : Event → Option Bool
  | .write _ succeeded => some succeeded
  | _ => none

def Event.flag? : Event → Option Bool
  | .saving flag => some flag
  | _ => none

def Event.failure? : Event → Option Stage
  | .write stage false => some stage
  | _ => none

def accesses (events : List Event) : List (Access Buffer) := events.filterMap Event.access?

def writes (events : List Event) : List Bool := events.filterMap Event.written?

def flags (events : List Event) : List Bool := events.filterMap Event.flag?

@[simp] theorem accesses_append (first second : List Event) :
    accesses (first ++ second) = accesses first ++ accesses second := List.filterMap_append

@[simp] theorem writes_append (first second : List Event) :
    writes (first ++ second) = writes first ++ writes second := List.filterMap_append

@[simp] theorem flags_append (first second : List Event) :
    flags (first ++ second) = flags first ++ flags second := List.filterMap_append

/-- Where the write that fails first is called. -/
def firstFailure (events : List Event) : Option Stage := events.findSome? Event.failure?

@[simp] theorem firstFailure_append (first second : List Event) :
    firstFailure (first ++ second) = (firstFailure first).or (firstFailure second) :=
  List.findSome?_append

/-- A failed save: it returns -1 and the failed write is its last, it touches no buffer that is
not live and frees each once, closes the descriptor at most once, and leaves `saving` false. -/
structure CleanFailure (traced : Traced Event (Bool × Bytes)) : Prop where
  returned : ∃ file, traced.result = some (false, file)
  stopped : ∃ count, writes traced.events = List.replicate count true ++ [false]
  lifetimes : leaves ∅ (accesses traced.events) = some ∅
  frees : ∀ buffer, (accesses traced.events).count (.free buffer) =
    (accesses traced.events).count (.allocate buffer)
  closes : traced.events.count .close ≤ 1
  cleared : (flags traced.events).getLast? = some false

/-! ## Parts of a save -/

/-- Accesses to the buffers, and writes that succeed. -/
def Event.Proceeds : Event → Prop
  | .buffer _ => True
  | .write _ succeeded => succeeded = true
  | _ => False

/-- A part of a save in which no write fails, with the buffers that are live before and behind. -/
structure Smooth (live : Finset Buffer) (events : List Event) (left : Finset Buffer) : Prop where
  each : ∀ event ∈ events, event.Proceeds
  leaves_eq : leaves live (accesses events) = some left

namespace Smooth

variable {live left : Finset Buffer} {events : List Event}

theorem nil : Smooth live [] live := ⟨by simp, rfl⟩

theorem append {middle : Finset Buffer} {later : List Event} (front : Smooth live events middle)
    (back : Smooth middle later left) : Smooth live (events ++ later) left where
  each event member := by
    rcases List.mem_append.mp member with first | second
    · exact front.each event first
    · exact back.each event second
  leaves_eq := by
    rw [accesses_append, leaves_append]
    exact (congrArg (Option.bind · _) front.leaves_eq).trans back.leaves_eq

theorem writes_eq (smooth : Smooth live events left) :
    writes events = List.replicate (writes events).length true := by
  apply List.eq_replicate_of_mem
  intro succeeded member
  obtain ⟨event, held, written⟩ := List.mem_filterMap.mp member
  have proceeds := smooth.each event held
  cases event <;> simp_all [Event.written?, Event.Proceeds]

theorem flags_eq (smooth : Smooth live events left) : flags events = [] := by
  apply List.filterMap_eq_nil_iff.mpr
  intro event member
  have proceeds := smooth.each event member
  cases event <;> simp_all [Event.flag?, Event.Proceeds]

theorem firstFailure_eq (smooth : Smooth live events left) : firstFailure events = none := by
  apply List.findSome?_eq_none_iff.mpr
  intro event member
  have proceeds := smooth.each event member
  cases event <;> simp_all [Event.failure?, Event.Proceeds]

theorem count_close (smooth : Smooth live events left) : events.count .close = 0 := by
  apply List.count_eq_zero.mpr
  intro member
  exact smooth.each .close member

end Smooth

/-! ## How a part of a save ends -/

/-- A part of a save that keeps the buffers live until it ends in one of these ways. -/
def Runs {α : Type} (live : Finset Buffer) (ends : List Event → Option α → Prop)
    (traced : Traced Event α) : Prop :=
  ∃ before behind, traced.events = before ++ behind ∧ Smooth live before live ∧
    ends behind traced.result

/-- No write fails, or one does and `tail` follows it. -/
def Fails {α : Type} (freed : α → Bool) (stage : Stage) (tail behind : List Event)
    (result : Option α) : Prop :=
  (behind = [] ∧ ∀ reached, result = some reached → freed reached = false) ∨
    behind = .write stage false :: tail ∧ ∃ reached, result = some reached ∧ freed reached = true

section Rules

variable {α β : Type} {freed : α → Bool} {stage : Stage} {tail : List Event}
  {live : Finset Buffer} {first : Traced Event α} {next : α → Traced Event β}
  {ends : List Event → Option β → Prop}

theorem Fails.stuck : Fails freed stage tail [] none := .inl ⟨rfl, by simp⟩

theorem runs_stuck (stuck : ends [] none) : Runs live ends Traced.stuck :=
  ⟨[], [], rfl, Smooth.nil, stuck⟩

theorem runs_pure {value : α} (kept : freed value = false) :
    Runs live (Fails freed stage tail) (pure value) := by
  refine ⟨[], [], rfl, Smooth.nil, .inl ⟨rfl, ?_⟩⟩
  intro reached same
  rwa [← Option.some.inj same]

/-- What follows a part in which no write fails. -/
theorem Runs.smooth_bind (stuck : ends [] none) (smooth : Smooth live first.events live)
    (continues : ∀ value, first.result = some value → Runs live ends (next value)) :
    Runs live ends (first >>= next) := by
  cases result : first.result with
  | none =>
      refine ⟨first.events, [], ?_, smooth, ?_⟩
      · rw [Traced.events_bind_none next result, List.append_nil]
      · rwa [Traced.result_bind, result]
  | some value =>
      obtain ⟨before, behind, events, early, ended⟩ := continues value result
      refine ⟨first.events ++ before, behind, ?_, smooth.append early, ?_⟩
      · rw [Traced.events_bind_some next result, events, List.append_assoc]
      · rwa [Traced.result_bind, result]

/-- What follows a part in which a write may fail. -/
theorem Runs.bind (stuck : ends [] none) (front : Runs live (Fails freed stage tail) first)
    (continues : ∀ value, freed value = false → Runs live ends (next value))
    (stops : ∀ value, freed value = true →
      ends (.write stage false :: (tail ++ (next value).events)) (next value).result) :
    Runs live ends (first >>= next) := by
  obtain ⟨before, behind, events, smooth, ended⟩ := front
  obtain ⟨rfl, kept⟩ | ⟨rfl, value, result, failed⟩ := ended
  · rw [List.append_nil] at events
    rw [← events] at smooth
    exact Runs.smooth_bind stuck smooth fun value result => continues value (kept value result)
  · refine ⟨before, .write stage false :: (tail ++ (next value).events), ?_, smooth, ?_⟩
    · rw [Traced.events_bind_some next result, events, List.append_assoc, List.cons_append]
    · rw [Traced.result_bind, result]
      exact stops value failed

/-- A part that only hands on what has failed. -/
theorem Fails.stops {freedLater : β → Bool} {last : β} {traced : Traced Event β}
    (handsOn : traced = pure last) (failed : freedLater last = true) :
    Fails freedLater stage tail (.write stage false :: (tail ++ traced.events)) traced.result := by
  subst handsOn
  exact .inr ⟨by simp, last, rfl, failed⟩

theorem uses_smooth {buffers : List Buffer} (held : ∀ buffer ∈ buffers, buffer ∈ live) :
    Smooth live (buffers.map fun buffer => .buffer (.use buffer)) live := by
  constructor
  · simp [Event.Proceeds]
  · have uses : accesses (buffers.map fun buffer => .buffer (.use buffer)) =
        buffers.map .use := by
      simp [accesses, List.filterMap_map, Function.comp_def, Event.access?]
    rw [uses]
    exact leaves_uses held

theorem touch_smooth {buffers : List Buffer} (held : ∀ buffer ∈ buffers, buffer ∈ live)
    (copied : Option Bytes) : Smooth live (touch buffers copied).events live := by
  rw [touch, Traced.events_bind_some _ rfl, Traced.events_lift, List.append_nil]
  exact uses_smooth held

end Rules

/-! ## The functions of a save -/

section Functions

variable (succeeds : Nat → Bool) {state : State} {live : Finset Buffer}

theorem writeBlock_freed (kept : state.freed = false) :
    (writeBlock succeeds state).freed = !succeeds state.issued := by
  rw [writeBlock]
  split <;> simp_all

theorem write_smooth {stage : Stage} (held : .block ∈ live) :
    Smooth live [.write stage true] live := by
  constructor
  · simp [Event.Proceeds]
  · simp [accesses, Event.access?, held]

theorem traceWrite_eq (stage : Stage) (state : State) : traceWrite succeeds stage state =
    ⟨[.write stage (succeeds state.issued)], some (writeBlock succeeds state)⟩ := rfl

theorem traceWrite_runs (stage : Stage) (kept : state.freed = false) (held : .block ∈ live) :
    Runs live (Fails State.freed stage []) (traceWrite succeeds stage state) := by
  have freed := writeBlock_freed succeeds kept
  rw [traceWrite_eq]
  cases outcome : succeeds state.issued with
  | true =>
      refine ⟨_, [], (List.append_nil _).symm, write_smooth held, .inl ⟨rfl, ?_⟩⟩
      intro reached result
      rw [← Option.some.inj result, freed, outcome]
      rfl
  | false =>
      refine ⟨[], _, rfl, Smooth.nil, .inr ⟨rfl, writeBlock succeeds state, rfl, ?_⟩⟩
      rw [freed, outcome]
      rfl

theorem traceDumpWrite_runs (kept : state.freed = false) (held : .block ∈ live) :
    Runs live (Fails State.freed .records interruptDumpingIntoFile)
      (traceDumpWrite succeeds state) := by
  apply Runs.bind Fails.stuck (traceWrite_runs succeeds .records kept held)
  · intro next keptNext
    rw [keptNext, if_neg Bool.false_ne_true]
    exact runs_pure keptNext
  · intro next failed
    rw [failed, if_pos rfl]
    exact .inr ⟨by simp, next, by simp, failed⟩

theorem block_touch_smooth (held : .block ∈ live) (copied : Option Bytes) :
    Smooth live (touch [.block] copied).events live := by
  apply touch_smooth
  simp [held]

/-- Both buffers are live while `dump_into_file` runs. -/
theorem dump_touch_smooth (blockHeld : .block ∈ live) (dataHeld : .data ∈ live)
    (copied : Option Bytes) : Smooth live (touch [.data, .block] copied).events live := by
  apply touch_smooth
  simp [blockHeld, dataHeld]

theorem traceDumpBlocks_runs (blockHeld : .block ∈ live) (dataHeld : .data ∈ live)
    {record : Bytes} {turns remaining : Nat} (kept : state.freed = false) :
    Runs live (Fails (fun reached => reached.1.freed) .records interruptDumpingIntoFile)
      (traceDumpBlocks succeeds record turns state remaining) := by
  induction turns generalizing state remaining with
  | zero => exact runs_stuck Fails.stuck
  | succ turns inductionHypothesis =>
      rw [traceDumpBlocks]
      split
      · apply Runs.smooth_bind Fails.stuck (dump_touch_smooth blockHeld dataHeld _)
        intro block copied
        apply Runs.bind Fails.stuck (traceDumpWrite_runs succeeds (by exact kept) blockHeld)
        · intro next keptNext
          rw [keptNext]
          exact inductionHypothesis keptNext
        · intro next failed
          apply Fails.stops (if_pos failed)
          exact failed
      · exact runs_pure kept

theorem traceDumpRecord_runs (blockHeld : .block ∈ live) (dataHeld : .data ∈ live)
    (kept : state.freed = false) (record : Bytes) :
    Runs live (Fails State.freed .records interruptDumpingIntoFile)
      (traceDumpRecord succeeds state record) := by
  have generated : Smooth live (Traced.emit [.buffer (.use .data)]).events live :=
    @uses_smooth live [.data] (by simp [dataHeld])
  rw [traceDumpRecord, kept]
  apply Runs.smooth_bind Fails.stuck generated
  rintro - -
  rw [if_neg Bool.false_ne_true]
  split
  · apply Runs.smooth_bind Fails.stuck (dump_touch_smooth blockHeld dataHeld _)
    intro block copied
    apply Runs.bind Fails.stuck (traceDumpWrite_runs succeeds rfl blockHeld)
    · intro first keptFirst
      rw [keptFirst, if_neg Bool.false_ne_true]
      apply Runs.bind Fails.stuck (traceDumpBlocks_runs succeeds blockHeld dataHeld keptFirst)
      · rintro ⟨last, remaining⟩ keptLast
        simp only at keptLast
        simp only [keptLast, Bool.false_eq_true, if_false]
        apply Runs.smooth_bind Fails.stuck (dump_touch_smooth blockHeld dataHeld _)
        intro lastBlock lastCopied
        exact runs_pure rfl
      · rintro ⟨last, remaining⟩ failed
        exact Fails.stops (if_pos failed) failed
    · intro first failed
      exact Fails.stops (if_pos failed) failed
  · apply Runs.smooth_bind Fails.stuck (dump_touch_smooth blockHeld dataHeld _)
    intro block copied
    exact runs_pure rfl

theorem traceSavePassword_runs (held : .block ∈ live) (kept : state.freed = false)
    (password : Password) :
    Runs live (Fails State.freed .passwords []) (traceSavePassword succeeds state password) := by
  rw [traceSavePassword]
  split
  · apply Runs.smooth_bind Fails.stuck (block_touch_smooth held _)
    intro block copied
    apply Runs.bind Fails.stuck (traceWrite_runs succeeds _ (by exact kept) held)
    · intro next keptNext
      rw [keptNext, if_neg Bool.false_ne_true]
      apply Runs.smooth_bind Fails.stuck (block_touch_smooth held _)
      intro rest copiedRest
      apply Runs.smooth_bind Fails.stuck (block_touch_smooth held _)
      intro last stored
      exact runs_pure rfl
    · intro next failed
      exact Fails.stops (if_pos failed) failed
  · apply Runs.smooth_bind Fails.stuck (block_touch_smooth held _)
    intro block copied
    apply Runs.smooth_bind Fails.stuck (block_touch_smooth held _)
    intro last stored
    exact runs_pure kept

theorem traceSavePasswords_runs (held : .block ∈ live) (kept : state.freed = false)
    (passwords : List Password) :
    Runs live (Fails State.freed .passwords [])
      (traceSavePasswords succeeds state passwords) := by
  induction passwords generalizing state with
  | nil => exact runs_pure kept
  | cons password rest inductionHypothesis =>
      rw [traceSavePasswords]
      apply Runs.bind Fails.stuck (traceSavePassword_runs succeeds held kept password)
      · intro next keptNext
        rw [keptNext, if_neg Bool.false_ne_true]
        exact inductionHypothesis keptNext
      · intro next failed
        exact Fails.stops (if_pos failed) failed

theorem traceFlushBlock_runs (held : .block ∈ live) (kept : state.freed = false) :
    Runs live (Fails State.freed .final []) (traceFlushBlock succeeds state) := by
  rw [traceFlushBlock]
  split
  · exact traceWrite_runs succeeds .final kept held
  · exact runs_pure kept

/-! ## Behind an interrupted dump -/

/-- Behind `foreach_hashtable`: no write has failed, or one has, and the next record, if there is
one, is put into the buffer that is freed. -/
def RecordsEnd (behind : List Event) (result : Option State) : Prop :=
  (behind = [] ∧ ∀ reached, result = some reached → reached.freed = false) ∨
    ∃ later, behind = .write .records false :: (interruptDumpingIntoFile ++ later) ∧
      (later = [] ∧ (∃ reached, result = some reached ∧ reached.freed = true) ∨
        later = [.buffer (.use .data)] ∧ result = none)

theorem RecordsEnd.stuck : RecordsEnd [] none := .inl ⟨rfl, by simp⟩

theorem traceDumpRecords_freed (freed : state.freed = true) (record : Bytes) (rest : List Bytes) :
    (traceDumpRecords succeeds state (record :: rest)).events = [.buffer (.use .data)] ∧
      (traceDumpRecords succeeds state (record :: rest)).result = none := by
  have result : (traceDumpRecord succeeds state record).result = none := by
    simp [traceDumpRecord, freed]
  have events : (traceDumpRecord succeeds state record).events = [.buffer (.use .data)] := by
    simp [traceDumpRecord, freed]
  rw [traceDumpRecords, Traced.events_bind_none _ result, Traced.result_bind, result]
  exact ⟨events, rfl⟩

theorem traceDumpRecords_runs (blockHeld : .block ∈ live) (dataHeld : .data ∈ live)
    (kept : state.freed = false) (records : List Bytes) :
    Runs live RecordsEnd (traceDumpRecords succeeds state records) := by
  induction records generalizing state with
  | nil =>
      refine ⟨[], [], rfl, Smooth.nil, .inl ⟨rfl, fun reached result => ?_⟩⟩
      rwa [← Option.some.inj result]
  | cons record rest inductionHypothesis =>
      rw [traceDumpRecords]
      apply Runs.bind RecordsEnd.stuck
        (traceDumpRecord_runs succeeds blockHeld dataHeld kept record)
      · intro next keptNext
        exact inductionHypothesis keptNext
      · intro next failed
        refine .inr ⟨_, rfl, ?_⟩
        cases rest with
        | nil => exact .inl ⟨rfl, next, rfl, failed⟩
        | cons other others => exact .inr (traceDumpRecords_freed succeeds failed other others)

/-- A failed write of `dump_into_file`, with the access behind it to a buffer that is freed. -/
def Interrupted (behind : List Event) : Prop :=
  ∃ before access, behind =
      before ++ .write .records false :: (interruptDumpingIntoFile ++ [.buffer access]) ∧
    Smooth {.block} before {.data, .block} ∧ (access = .use .data ∨ access = .free .data)

/-- Behind the records of a database the save goes on if no write has failed. -/
def DatabasesEnd (behind : List Event) (result : Option State) : Prop :=
  (behind = [] ∧ ∃ reached, result = some reached ∧ reached.freed = false) ∨
    result = none ∧ (firstFailure behind = none ∨ Interrupted behind)

theorem DatabasesEnd.stuck : DatabasesEnd [] none := .inr ⟨rfl, .inl rfl⟩

theorem allocate_smooth : Smooth {.block} [.buffer (.allocate .data)] {.data, .block} :=
  ⟨by simp [Event.Proceeds], rfl⟩

theorem free_smooth : Smooth {.data, .block} [.buffer (.free .data)] {.block} :=
  ⟨by simp [Event.Proceeds], rfl⟩

/-- `data` lives as long as the records are dumped. -/
theorem traceRecords_runs (kept : state.freed = false) (records : List Bytes) :
    Runs {.block} DatabasesEnd (do
      Traced.emit [.buffer (.allocate .data)]
      let state ← traceDumpRecords succeeds state records
      Traced.emit [.buffer (.free .data)]
      if state.freed then Traced.stuck else pure state) := by
  obtain ⟨before, behind, events, smooth, ended⟩ :=
    @traceDumpRecords_runs succeeds state {.data, .block} (by simp) (by simp) kept records
  have early := allocate_smooth.append smooth
  obtain ⟨rfl, kept⟩ | ⟨later, rfl, ⟨rfl, reached, result, freed⟩ | ⟨rfl, result⟩⟩ := ended
  · cases result : (traceDumpRecords succeeds state records).result with
    | none =>
        refine ⟨[], _, rfl, Smooth.nil, .inr ⟨by simp [result], .inl ?_⟩⟩
        simp only [Traced.events_bind_none _ result, events, List.append_nil]
        exact early.firstFailure_eq
    | some reached =>
        refine ⟨_, [], (List.append_nil _).symm, ?_, .inl ⟨rfl, reached, ?_, kept reached result⟩⟩
        · simp only [Traced.events_emit_bind, Traced.events_bind_some _ result, events,
            List.append_nil, kept reached result, Bool.false_eq_true, if_false, Traced.events_pure]
          rw [← List.append_assoc]
          exact early.append free_smooth
        · simp [result, kept reached result]
  · refine ⟨[], _, rfl, Smooth.nil, .inr ⟨by simp [result, freed], .inr ⟨_, .free .data, ?_, early,
      .inr rfl⟩⟩⟩
    simp [Traced.events_bind_some _ result, events, freed]
  · refine ⟨[], _, rfl, Smooth.nil, .inr ⟨by simp [result], .inr ⟨_, .use .data, ?_, early,
      .inl rfl⟩⟩⟩
    simp [Traced.events_bind_none _ result, events]

theorem traceSaveDatabase_runs (kept : state.freed = false) (database : SavedDatabase) :
    Runs {.block} DatabasesEnd (traceSaveDatabase succeeds state database) := by
  have held : Buffer.block ∈ ({.block} : Finset Buffer) := by simp
  apply Runs.smooth_bind DatabasesEnd.stuck (block_touch_smooth held _)
  intro block stored
  apply Runs.smooth_bind DatabasesEnd.stuck (block_touch_smooth held _)
  intro named storedName
  split
  · exact ⟨[], [], rfl, Smooth.nil, .inl ⟨rfl, _, rfl, kept⟩⟩
  · exact traceRecords_runs succeeds (by exact kept) database.records

/-- What follows the records of databases. -/
theorem Runs.databases_bind {β : Type} {first : Traced Event State} {next : State → Traced Event β}
    {ends : List Event → Option β → Prop}
    (stuck : ∀ behind, firstFailure behind = none ∨ Interrupted behind → ends behind none)
    (front : Runs {.block} DatabasesEnd first)
    (continues : ∀ value, value.freed = false → Runs {.block} ends (next value)) :
    Runs {.block} ends (first >>= next) := by
  obtain ⟨before, behind, events, smooth, ended⟩ := front
  obtain ⟨rfl, reached, result, kept⟩ | ⟨result, ended⟩ := ended
  · rw [List.append_nil] at events
    rw [← events] at smooth
    apply Runs.smooth_bind (stuck [] (.inl rfl)) smooth
    intro value same
    obtain rfl := Option.some.inj (result.symm.trans same)
    exact continues reached kept
  · refine ⟨before, behind, ?_, smooth, ?_⟩
    · rwa [Traced.events_bind_none next result]
    · rw [Traced.result_bind, result]
      exact stuck behind ended

theorem traceSaveDatabases_runs (kept : state.freed = false) (databases : List SavedDatabase) :
    Runs {.block} DatabasesEnd (traceSaveDatabases succeeds state databases) := by
  induction databases generalizing state with
  | nil => exact ⟨[], [], rfl, Smooth.nil, .inl ⟨rfl, state, rfl, kept⟩⟩
  | cons database rest inductionHypothesis =>
      rw [traceSaveDatabases]
      apply Runs.databases_bind (fun behind ended => .inr ⟨rfl, ended⟩)
        (traceSaveDatabase_runs succeeds kept database)
      intro next keptNext
      exact inductionHypothesis keptNext

/-! ## The whole save -/

/-- No write fails, or one of `dump_into_file` does, or another does and is cleaned up behind. -/
def SaveEnd (behind : List Event) (result : Option (Bool × Bytes)) : Prop :=
  (firstFailure behind = none ∨ Interrupted behind) ∨
    ∃ stage file, stage ≠ .records ∧ behind = .write stage false :: cleanup true ∧
      result = some (false, file)

theorem saveHeaders_kept {capacity serverAge passwordCount : Nat}
    (saved : saveHeaders capacity serverAge passwordCount = some state) : state.freed = false := by
  simp only [saveHeaders, Option.bind_eq_bind, Option.bind_eq_some_iff] at saved
  obtain ⟨_, _, _, _, _, _, same⟩ := saved
  rw [← Option.some.inj same]

/-- What `save_data` does before it copies anything. -/
def saveStart : List Event :=
  [.saving true, .buffer (.allocate .block), .buffer (.use .block)]

theorem traceSaveData_runs (truncates : Bool) (capacity : Nat) (saving : Saving) :
    ∃ rest, (traceSaveData succeeds truncates false capacity saving).events =
        saveStart ++ rest.events ∧
      (traceSaveData succeeds truncates false capacity saving).result = rest.result ∧
      Runs {.block} SaveEnd rest := by
  refine ⟨_, rfl, rfl, ?_⟩
  have held : Buffer.block ∈ ({.block} : Finset Buffer) := by simp
  have stuck : SaveEnd [] none := .inl (.inl rfl)
  apply Runs.smooth_bind stuck Smooth.nil
  intro headed saved
  apply Runs.bind stuck (traceSavePasswords_runs succeeds held (saveHeaders_kept saved) _)
  · intro started kept
    rw [kept, if_neg Bool.false_ne_true]
    apply Runs.databases_bind (fun behind ended => .inl ended)
      (traceSaveDatabases_runs succeeds kept saving.databases)
    intro dumped keptDumped
    apply Runs.bind stuck (traceFlushBlock_runs succeeds held keptDumped)
    · intro final keptFinal
      rw [keptFinal, if_neg Bool.false_ne_true]
      refine ⟨[], _, rfl, Smooth.nil, .inl (.inl ?_)⟩
      cases truncates <;> rfl
    · intro final failed
      rw [failed, if_pos rfl]
      exact .inr ⟨.final, _, by decide, by simp, by simp; rfl⟩
  · intro started failed
    rw [failed, if_pos rfl]
    exact .inr ⟨.passwords, _, by decide, by simp, by simp; rfl⟩

/-- Behind a failed write `cleanup` frees the block, which is all that is live. -/
theorem cleanFailure_of_cleanup {traced : Traced Event (Bool × Bytes)} {before : List Event}
    {stage : Stage} {file : Bytes}
    (events : traced.events = saveStart ++ (before ++ .write stage false :: cleanup true))
    (smooth : Smooth {.block} before {.block}) (result : traced.result = some (false, file)) :
    CleanFailure traced := by
  have lifetimes : leaves ∅ (accesses traced.events) = some ∅ := by
    have start : leaves ∅ (accesses saveStart) = some {.block} := rfl
    have behind : leaves {.block} (accesses (.write stage false :: cleanup true)) = some ∅ := rfl
    simp only [events, accesses_append, leaves_append, start, smooth.leaves_eq, behind,
      Option.bind_some]
  refine ⟨⟨file, result⟩, ⟨(writes before).length, ?_⟩, lifetimes, ?_, ?_, ?_⟩
  · rw [events, writes_append, writes_append, ← smooth.writes_eq]
    rfl
  · intro buffer
    have balance := frees_eq_allocations lifetimes buffer
    simpa using balance
  · rw [events, List.count_append, List.count_append, smooth.count_close]
    cases stage <;> decide
  · rw [events, flags_append, flags_append, smooth.flags_eq]
    rfl

/-- Behind `interrupt_dumping_into_file` a buffer is touched that it has freed. -/
theorem leaves_interrupted {access : Access Buffer}
    (touches : access = .use .data ∨ access = .free .data) :
    leaves {.data, .block} (accesses
      (.write .records false :: (interruptDumpingIntoFile ++ [.buffer access]))) = none := by
  show leaves {.data, .block}
    (.use .block :: .free .data :: ([.free .block] ++ [access])) = none
  have freed : Buffer.data ∉ ({.data, .block} : Finset Buffer).erase .data :=
    Finset.notMem_erase _ _
  rw [leaves_use, leaves_free, leaves_touch_dead touches freed (by decide)]
  simp

theorem not_cleanFailure_of_interrupted {traced : Traced Event (Bool × Bytes)}
    {before behind : List Event} (events : traced.events = saveStart ++ (before ++ behind))
    (smooth : Smooth {.block} before {.block}) (interrupted : Interrupted behind) :
    ¬CleanFailure traced := by
  intro clean
  obtain ⟨middle, access, rfl, dumping, touches⟩ := interrupted
  have lifetimes := clean.lifetimes
  have start : leaves ∅ (accesses saveStart) = some {.block} := rfl
  rw [events, accesses_append, accesses_append, accesses_append, leaves_append, start,
    Option.bind_some, leaves_append, smooth.leaves_eq, Option.bind_some, leaves_append,
    dumping.leaves_eq, Option.bind_some, leaves_interrupted touches] at lifetimes
  cases lifetimes

theorem Interrupted.firstFailure_eq {behind : List Event} (interrupted : Interrupted behind) :
    firstFailure behind = some .records := by
  obtain ⟨middle, access, rfl, dumping, -⟩ := interrupted
  rw [firstFailure_append, dumping.firstFailure_eq]
  rfl

variable {succeeds}

/-- A failed write ends a save cleanly exactly when it is not one of `dump_into_file`. -/
theorem failed_save_clean_iff {truncates running : Bool} {capacity : Nat} {saving : Saving}
    {stage : Stage}
    (failed : firstFailure (traceSaveData succeeds truncates running capacity saving).events =
      some stage) :
    CleanFailure (traceSaveData succeeds truncates running capacity saving) ↔
      stage ≠ .records := by
  cases running with
  | true => exact absurd failed (by simp [traceSaveData, firstFailure])
  | false =>
      obtain ⟨rest, events, result, before, behind, restEvents, smooth, ended⟩ :=
        traceSaveData_runs succeeds truncates capacity saving
      have start : firstFailure saveStart = none := rfl
      rw [restEvents] at events
      rw [events, firstFailure_append, firstFailure_append, start, smooth.firstFailure_eq,
        Option.none_or, Option.none_or] at failed
      obtain (ordinary | interrupted) | ⟨reached, file, elsewhere, rfl, returned⟩ := ended
      · exact absurd (ordinary.symm.trans failed) (by simp)
      · obtain rfl := Option.some.inj (interrupted.firstFailure_eq.symm.trans failed)
        have dirty := not_cleanFailure_of_interrupted events smooth interrupted
        exact ⟨fun clean => absurd clean dirty, fun elsewhere => absurd rfl elsewhere⟩
      · obtain rfl := Option.some.inj (show some reached = some stage from failed)
        refine ⟨fun _ => elsewhere, fun _ => ?_⟩
        exact cleanFailure_of_cleanup events smooth (result.trans returned)

end Functions

/-- One database with one string under a key of one byte. -/
def stringSaving (length : Nat) : Saving where
  serverAge := 5
  passwords := []
  databases := [⟨[0x30], 1,
    [generateStringValue [0x6b] ++ 4 :: generateStringValue (List.replicate length 0x61)]⟩]
  file := []

theorem failed_save_clean_final :
    CleanFailure (traceSaveData (fun _ => false) true false 512 (stringSaving 3)) :=
  (failed_save_clean_iff (show firstFailure _ = some .final by decide +kernel)).mpr (by decide)

/-- The record does not fit into the first block, whose write fails: `dump_into_file` frees `data`,
and `save_data` frees it once more. -/
theorem failed_save_frees_twice :
    firstFailure (traceSaveData (fun _ => false) true false 512 (stringSaving 600)).events =
        some .records ∧
      ¬CleanFailure (traceSaveData (fun _ => false) true false 512 (stringSaving 600)) :=
  ⟨by decide +kernel, fun clean => absurd clean.lifetimes (by decide +kernel)⟩

end TellyDB.Database.File
