import Mathlib.Data.List.Induction

/-!
Owns the automatic saving of `transactions/transactions.c`: what `check_autosave` does after every
command, and the windows of time that decide when it saves.

Clock values and what `save_data` returns are inputs.
-/

namespace TellyDB.Server

/-! ## The function -/

/-- `server->conf->autosave`. -/
structure Autosave where
  seconds : BitVec 32
  count : BitVec 32

/-- `server->start_at` and `server->age`. -/
structure ServerAge where
  startAt : Int
  age : BitVec 32

/-- `database_operations` and `tx_last_saved_at`. -/
structure AutosaveState where
  databaseOperations : BitVec 32
  lastSavedAt : Int

/-- An executed command as `check_autosave` sees it: its flag, the time that the clock tells, which
the assertion takes for one, and what `save_data` returns if it is called. -/
structure ExecutedCommand where
  affectDatabase : Bool
  currentTime : Int
  saved : Int
  valid : currentTime ≠ -1

/-- What a call of `check_autosave` does: the argument of `save_data` and the line of the log if
there are any, and whether it runs into `unreachable()`. -/
structure CheckedAutosave where
  state : AutosaveState
  saveData : Option (BitVec 32)
  log : Option String
  unreachable : Bool

/-- The line that is logged after `save_data`. -/
def autosaveLog (conf : Autosave) (saved : Int) : Option String :=
  let changed := "More than " ++ toString conf.count.toNat ++ " keys are changed in " ++
    toString conf.seconds.toNat ++ " seconds, "
  if saved = 0 then some (changed ++ "auto-saved successfully.")
  else if saved = -1 then some (changed ++ "but cannot auto-saved.")
  else none

/-- `check_autosave`. The age is a sum of `double`s, cast to 32 bits. -/
def checkAutosave (conf : Autosave) (server : ServerAge) (state : AutosaveState)
    (command : ExecutedCommand) : CheckedAutosave :=
  if command.affectDatabase then
    let databaseOperations := state.databaseOperations + 1
    if conf.count ≤ databaseOperations ∧
        command.currentTime < state.lastSavedAt + conf.seconds.toNat then
      let serverAge := server.age + BitVec.ofInt 32 (command.currentTime - server.startAt)
      { state := ⟨0, command.currentTime⟩
        saveData := some serverAge
        log := autosaveLog conf command.saved
        unreachable := true }
    else if state.lastSavedAt + conf.seconds.toNat ≤ command.currentTime then
      ⟨⟨1, command.currentTime⟩, none, none, false⟩
    else ⟨{ state with databaseOperations := databaseOperations }, none, none, false⟩
  else ⟨state, none, none, false⟩

/-- The transaction thread after some commands: its counters, the times at which it called
`save_data`, the latest first, and whether it ran into `unreachable()`. Where that is
`((void) 0)`, the thread goes on. -/
structure AutosaveRun where
  state : AutosaveState
  saves : List Int
  unreachable : Bool

/-- `check_autosave` after one more command. -/
def AutosaveRun.execute (conf : Autosave) (server : ServerAge) (reached : AutosaveRun)
    (command : ExecutedCommand) : AutosaveRun :=
  let checked := checkAutosave conf server reached.state command
  { state := checked.state
    saves := (checked.saveData.map fun _ => command.currentTime).toList ++ reached.saves
    unreachable := checked.unreachable || reached.unreachable }

/-- A run of the transaction thread, which reads the clock before the first command. -/
def runAutosave (conf : Autosave) (server : ServerAge) (startedAt : Int)
    (commands : List ExecutedCommand) : AutosaveRun :=
  commands.foldl (AutosaveRun.execute conf server) ⟨⟨0, startedAt⟩, [], false⟩

/-! ## The policy -/

/-- A window: when it began, and the times of the changes in it, the latest first. -/
structure SaveWindow where
  begun : Int
  changes : List Int

/-- The current window and the times of the saves, the latest first. -/
structure SavePolicy where
  window : SaveWindow
  saves : List Int

namespace SavePolicy

variable (conf : Autosave) (policy : SavePolicy) (command : ExecutedCommand)

/-- The time of the current window has passed. -/
def Elapsed : Prop := policy.window.begun + conf.seconds.toNat ≤ command.currentTime

/-- The command changes the database, is at least the `count`-th one of the window to do so, and
the window has not elapsed. -/
def Due : Prop :=
  command.affectDatabase = true ∧ conf.count.toNat ≤ policy.window.changes.length + 1 ∧
    ¬policy.Elapsed conf command

instance : Decidable (policy.Elapsed conf command) := inferInstanceAs (Decidable (_ ≤ _))

instance : Decidable (policy.Due conf command) := inferInstanceAs (Decidable (_ ∧ _))

/-- A due command is a save that begins a window. The first change after a window has elapsed
begins one that counts it. -/
def observe : SavePolicy :=
  if policy.Due conf command then
    ⟨⟨command.currentTime, []⟩, command.currentTime :: policy.saves⟩
  else if command.affectDatabase = false then policy
  else if policy.Elapsed conf command then
    ⟨⟨command.currentTime, [command.currentTime]⟩, policy.saves⟩
  else ⟨⟨policy.window.begun, command.currentTime :: policy.window.changes⟩, policy.saves⟩

end SavePolicy

/-- The policy after some commands. -/
def runPolicy (conf : Autosave) (startedAt : Int) (commands : List ExecutedCommand) : SavePolicy :=
  commands.foldl (SavePolicy.observe conf) ⟨⟨startedAt, []⟩, []⟩

/-! ## The thread follows the policy -/

/-- The counters describe the window. The count stays below the configured one, or is that of a
window that the last command began. -/
structure Follows (conf : Autosave) (reached : AutosaveRun) (policy : SavePolicy) : Prop where
  counted : reached.state.databaseOperations.toNat = policy.window.changes.length
  begun : reached.state.lastSavedAt = policy.window.begun
  small : policy.window.changes.length ≤ 1 ∨ policy.window.changes.length < conf.count.toNat
  saves : reached.saves = policy.saves
  unreachable : reached.unreachable = true ↔ policy.saves ≠ []

section Runs

variable {conf : Autosave} {server : ServerAge} {reached : AutosaveRun} {policy : SavePolicy}
  {command : ExecutedCommand} {startedAt : Int} {commands : List ExecutedCommand}

/-- One more change does not wrap the counter. -/
theorem Follows.increment (follows : Follows conf reached policy) :
    (reached.state.databaseOperations + 1).toNat = policy.window.changes.length + 1 := by
  have bound := conf.count.isLt
  have small : policy.window.changes.length + 1 < 2 ^ 32 := by
    rcases follows.small with few | below
    · omega
    · omega
  rw [BitVec.toNat_add, follows.counted]
  exact Nat.mod_eq_of_lt small

/-- `check_autosave` calls `save_data` where the policy does, and begins its windows there too. -/
theorem Follows.execute (follows : Follows conf reached policy) :
    Follows conf (reached.execute conf server command) (policy.observe conf command) := by
  have increment := follows.increment
  obtain ⟨counted, begun, small, saves, unreachable⟩ := follows
  cases affects : command.affectDatabase with
  | false =>
      simp only [AutosaveRun.execute, checkAutosave, SavePolicy.observe, SavePolicy.Due, affects,
        Bool.false_eq_true, false_and, if_false, if_true, Option.map_none, Option.toList_none,
        List.nil_append, Bool.false_or]
      exact ⟨counted, begun, small, saves, unreachable⟩
  | true =>
      have due : policy.Due conf command ↔
          conf.count ≤ reached.state.databaseOperations + 1 ∧
            command.currentTime < reached.state.lastSavedAt + conf.seconds.toNat := by
        simp only [SavePolicy.Due, SavePolicy.Elapsed, affects, true_and, BitVec.le_def, increment,
          begun, Int.not_le]
      simp only [AutosaveRun.execute, checkAutosave, SavePolicy.observe, affects, if_true, ← due]
      by_cases isDue : policy.Due conf command
      · simp only [isDue, if_true]
        constructor
        case counted => rfl
        case begun => rfl
        case small => exact .inl (Nat.zero_le 1)
        case saves => simp [saves]
        case unreachable => simp
      · have elapsed : policy.Elapsed conf command ↔
            reached.state.lastSavedAt + conf.seconds.toNat ≤ command.currentTime := by
          rw [SavePolicy.Elapsed, begun]
        simp only [isDue, if_false, ← elapsed, Bool.true_eq_false]
        by_cases isElapsed : policy.Elapsed conf command
        · simp only [isElapsed, if_true]
          constructor
          case counted => rfl
          case begun => rfl
          case small => exact .inl (Nat.le_refl 1)
          case saves => simp [saves]
          case unreachable => simpa using unreachable
        · simp only [isElapsed, if_false]
          have below : policy.window.changes.length + 1 < conf.count.toNat := by
            by_contra reaches
            exact isDue ⟨affects, by omega, isElapsed⟩
          constructor
          case counted => exact increment
          case begun => exact begun
          case small => exact .inr below
          case saves => simp [saves]
          case unreachable => simpa using unreachable

theorem follows_run (commands : List ExecutedCommand) :
    Follows conf (runAutosave conf server startedAt commands)
      (runPolicy conf startedAt commands) := by
  induction commands using List.reverseRecOn with
  | nil => exact ⟨rfl, rfl, .inl (Nat.zero_le 1), rfl, by simp [runAutosave, runPolicy]⟩
  | append_singleton commands command inductionHypothesis =>
      rw [runAutosave, runPolicy, List.foldl_append, List.foldl_append]
      exact inductionHypothesis.execute

/-- The policy saves with a command exactly if it is due. -/
theorem observe_saves :
    (policy.observe conf command).saves =
      if policy.Due conf command then command.currentTime :: policy.saves else policy.saves := by
  unfold SavePolicy.observe
  split
  · rfl
  · split
    · rfl
    · split <;> rfl

/-- The policy has saved nothing exactly if no command was due. -/
theorem runPolicy_saves_eq_nil :
    (runPolicy conf startedAt commands).saves = [] ↔
      ∀ first command, first ++ [command] <+: commands →
        ¬(runPolicy conf startedAt first).Due conf command := by
  induction commands using List.reverseRecOn with
  | nil =>
      refine ⟨fun _ first command isPrefix => ?_, fun _ => rfl⟩
      exact absurd (List.prefix_nil.mp isPrefix) (List.append_ne_nil_of_right_ne_nil _ (by simp))
  | append_singleton commands last inductionHypothesis =>
      rw [runPolicy, List.foldl_append, List.foldl_cons, List.foldl_nil, observe_saves]
      change (if (runPolicy conf startedAt commands).Due conf last then _ else
        (runPolicy conf startedAt commands).saves) = [] ↔ _
      constructor
      · intro empty first command isPrefix
        split at empty
        case isTrue => cases empty
        case isFalse notDue =>
          rcases List.prefix_concat_iff.mp isPrefix with same | earlier
          · obtain ⟨rfl, single⟩ := List.append_inj' same rfl
            cases single
            exact notDue
          · exact inductionHypothesis.mp empty first command earlier
      · intro never
        rw [if_neg (never commands last (List.prefix_refl _))]
        apply inductionHypothesis.mpr
        intro first command isPrefix
        exact never first command (isPrefix.trans (List.prefix_append _ _))

/-- In a run of the transaction thread `check_autosave` returns normally every time and calls
`save_data` exactly with the commands that are due, if and only if no command is. -/
theorem checkAutosave_iff (conf : Autosave) (server : ServerAge) (startedAt : Int)
    (commands : List ExecutedCommand) :
    ((runAutosave conf server startedAt commands).unreachable = false ∧
      (runAutosave conf server startedAt commands).saves =
        (runPolicy conf startedAt commands).saves) ↔
      ∀ first command, first ++ [command] <+: commands →
        ¬(runPolicy conf startedAt first).Due conf command := by
  have follows : Follows conf (runAutosave conf server startedAt commands)
      (runPolicy conf startedAt commands) := follows_run commands
  rw [← runPolicy_saves_eq_nil, ← Bool.not_eq_true, follows.unreachable, not_not]
  exact and_iff_left follows.saves

/-- The second of two changes, with a count of two. -/
theorem checkAutosave_reaches_unreachable :
    ¬((runAutosave ⟨60, 2⟩ ⟨0, 0⟩ 0
          [⟨true, 1, 0, by decide⟩, ⟨true, 2, 0, by decide⟩]).unreachable = false ∧
      (runAutosave ⟨60, 2⟩ ⟨0, 0⟩ 0
          [⟨true, 1, 0, by decide⟩, ⟨true, 2, 0, by decide⟩]).saves =
        (runPolicy ⟨60, 2⟩ 0 [⟨true, 1, 0, by decide⟩, ⟨true, 2, 0, by decide⟩]).saves) := by
  decide

end Runs

end TellyDB.Server
